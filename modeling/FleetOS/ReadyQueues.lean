import FleetOS.Scheduler
import Mathlib.Data.Multiset.Basic
import Mathlib.Data.Finset.Card

/-!
# The ready queues

What the scheduler keeps true of its queues, its current pointer and the thread states.
`Scheduler.queued` collects the threads of all ready queues. A scheduler is `Sound` for `n`
threads if no thread is queued twice, a queued thread is ready or done, and a running thread
is the current one and in no queue. It is `Disciplined` if the current thread is in no queue
and is running or done.

A done thread can be queued : `cleanup_process` marks the threads of a process done without
taking them out of the queues.

Everything `scheduler_next` can do is `schedulerNext_cases` : nothing, or a `Switch` to a
queued thread. The other operations come down to it and to queueing one thread. A thread
that is in no queue and not running (`Parked`) is left as it is by all of them.
-/

namespace FleetOS

namespace Scheduler

/-- The threads in the ready queues of the mode. -/
def queued (s : Scheduler) : Multiset ℕ :=
  match s.schedMode with
  | .rr => s.rr.toList
  | .mlfq => ((s.mlfq 0).toList : Multiset ℕ) + (s.mlfq 1).toList + (s.mlfq 2).toList

/-- The current thread, running, goes back to its queue at the next switch. -/
def Yields (s : Scheduler) (u : ℕ) : Prop :=
  s.currentThread = some u ∧ (s.tcb u).state = .running

instance (s : Scheduler) (u : ℕ) : Decidable (s.Yields u) :=
  inferInstanceAs (Decidable (_ ∧ _))

/-- The part of a TCB that only the kernel writes : all but the state and the level. -/
def kept (s : Scheduler) (u : ℕ) : TCB :=
  { s.tcb u with state := .ready, mlfqLevel := 0 }

/-- In no queue and not running. -/
def Parked (s : Scheduler) (u : ℕ) : Prop :=
  u ∉ s.queued ∧ (s.tcb u).state ≠ .running

structure Sound (s : Scheduler) (n : ℕ) : Prop where
  n_le : n ≤ maxThreads
  rr_wf : s.rr.WF
  mlfq_wf : ∀ l, (s.mlfq l).WF
  nodup : s.queued.Nodup
  queued_lt : ∀ t ∈ s.queued, t < n
  queued_state : ∀ t ∈ s.queued, (s.tcb t).state = .ready ∨ (s.tcb t).state = .done
  current_lt : ∀ c, s.currentThread = some c → c < n
  running : ∀ t < n, (s.tcb t).state = .running → s.currentThread = some t ∧ t ∉ s.queued
  level : ∀ t < n, -1 ≤ (s.tcb t).mlfqLevel ∧ (s.tcb t).mlfqLevel ≤ 2
  currentQueue : 0 ≤ s.currentQueue ∧ s.currentQueue ≤ 2

structure Disciplined (s : Scheduler) (n : ℕ) : Prop extends s.Sound n where
  current : ∀ c, s.currentThread = some c →
    c ∉ s.queued ∧ ((s.tcb c).state = .running ∨ (s.tcb c).state = .done)

/-- A switch to thread `t` : a yielding thread is queued, `t` leaves the queues and runs,
and nothing else in any TCB changes. -/
structure Switch (s s' : Scheduler) (t : ℕ) : Prop where
  mode : s'.schedMode = s.schedMode
  current : s'.currentThread = some t
  queued : (s.queued = t ::ₘ s'.queued ∧ ∀ c, ¬s.Yields c) ∨
    ∃ c, s.Yields c ∧ c ::ₘ s.queued = t ::ₘ s'.queued
  tcb : ∀ u, s'.tcb u = { s.tcb u with
    state := if u = t then .running else if s.Yields u then .ready else (s.tcb u).state
    mlfqLevel := if s.schedMode = .mlfq ∧ s.Yields u then (s.tcb u).queueLevel
      else (s.tcb u).mlfqLevel }
  rr_wf : s'.rr.WF
  mlfq_wf : ∀ l, (s'.mlfq l).WF
  currentQueue : 0 ≤ s'.currentQueue ∧ s'.currentQueue ≤ 2

/-- The quantum of the queue the current thread was taken from. -/
def fullQuantum (s : Scheduler) : ℤ :=
  match s.schedMode with
  | .rr => schedQuantumRr
  | .mlfq => mlfqQuantum s.currentQueue

/-! ## TCB updates -/

@[simp] theorem setTcb_self (s : Scheduler) (t : ℕ) (f : TCB → TCB) :
    (s.setTcb t f).tcb t = f (s.tcb t) :=
  Function.update_self _ _ _

theorem setTcb_of_ne (s : Scheduler) {t u : ℕ} (h : u ≠ t) (f : TCB → TCB) :
    (s.setTcb t f).tcb u = s.tcb u :=
  Function.update_of_ne h _ _

theorem setTcb_tcb (s : Scheduler) (t u : ℕ) (f : TCB → TCB) :
    (s.setTcb t f).tcb u = if u = t then f (s.tcb t) else s.tcb u :=
  Function.update_apply _ _ _ _

theorem setMlfq_mlfq (s : Scheduler) (l l' : ℤ) (q : ReadyQueue) :
    (s.setMlfq l q).mlfq l' = if l' = l then q else s.mlfq l' :=
  Function.update_apply _ _ _ _

/-! ## Room -/

/-- Distinct numbers below `n`, one of them missing, are fewer than `n`. -/
theorem card_lt_of_not_mem {m : Multiset ℕ} {n t : ℕ} (hnd : m.Nodup) (hlt : ∀ u ∈ m, u < n)
    (ht : t < n) (hm : t ∉ m) : m.card < n := by
  have hsub : (t ::ₘ m).toFinset ⊆ Finset.range n := by
    intro u hu
    rw [Multiset.mem_toFinset, Multiset.mem_cons] at hu
    rcases hu with rfl | hu
    · exact Finset.mem_range.mpr ht
    · exact Finset.mem_range.mpr (hlt u hu)
  have hcard := Finset.card_le_card hsub
  rw [Multiset.toFinset_card_of_nodup (Multiset.nodup_cons.mpr ⟨hm, hnd⟩), Multiset.card_cons,
    Finset.card_range] at hcard
  omega

theorem Sound.card_queued_lt {s : Scheduler} {n t : ℕ} (h : s.Sound n) (ht : t < n)
    (hm : t ∉ s.queued) : s.queued.card < maxReadyQueue :=
  (card_lt_of_not_mem h.nodup h.queued_lt ht hm).trans_le h.n_le

/-! ## Queueing one thread -/

theorem queueLevel_mem {s : Scheduler} {n t : ℕ} (h : s.Sound n) (ht : t < n) :
    0 ≤ (s.tcb t).queueLevel ∧ (s.tcb t).queueLevel ≤ 2 := by
  have hl := h.level t ht
  unfold TCB.queueLevel
  split_ifs with h0
  · exact ⟨h0, hl.2⟩
  · cases (s.tcb t).priority <;> decide

theorem level_cases {l : ℤ} (h : 0 ≤ l ∧ l ≤ 2) : l = 0 ∨ l = 1 ∨ l = 2 := by
  omega

theorem queued_rr {s : Scheduler} (hm : s.schedMode = .rr) : s.queued = s.rr.toList := by
  simp [queued, hm]

theorem queued_congr {s s' : Scheduler} (hmode : s'.schedMode = s.schedMode) (hrr : s'.rr = s.rr)
    (hmlfq : s'.mlfq = s.mlfq) : s'.queued = s.queued := by
  simp only [queued, hrr, hmlfq, hmode]

theorem queued_setRr {s : Scheduler} (hm : s.schedMode = .rr) (q : ReadyQueue) :
    (s.setRr q).queued = q.toList :=
  queued_rr (s := s.setRr q) hm

theorem queued_mlfq {s : Scheduler} (hm : s.schedMode = .mlfq) :
    s.queued = ((s.mlfq 0).toList : Multiset ℕ) + (s.mlfq 1).toList + (s.mlfq 2).toList := by
  simp [queued, hm]

theorem mem_queued_of_mlfq {s : Scheduler} (hm : s.schedMode = .mlfq) {l : ℤ}
    (hl : 0 ≤ l ∧ l ≤ 2) {t : ℕ} (ht : t ∈ (s.mlfq l).toList) : t ∈ s.queued := by
  rw [queued_mlfq hm]
  rcases level_cases hl with rfl | rfl | rfl <;> simp [ht]

theorem count_mlfq_le {s : Scheduler} (hm : s.schedMode = .mlfq) {l : ℤ} (hl : 0 ≤ l ∧ l ≤ 2) :
    (s.mlfq l).count ≤ s.queued.card := by
  rw [queued_mlfq hm]
  rcases level_cases hl with rfl | rfl | rfl <;> simp <;> omega

/-- Pushing a thread that is in no queue always succeeds. -/
theorem queuePush_eq {q : ReadyQueue} {t : ℕ} (hroom : q.count < maxReadyQueue)
    (ht : t ∉ q.toList) : queuePush q t = q.push t := by
  have hidx : findInQueue q t = none := RingBuffer.index_eq_none.mpr ht
  simp [queuePush, hidx, hroom]

theorem queued_setMlfq {s : Scheduler} (hm : s.schedMode = .mlfq) {l : ℤ}
    (hl : 0 ≤ l ∧ l ≤ 2) (q : ReadyQueue) :
    (s.setMlfq l q).queued + (s.mlfq l).toList = s.queued + q.toList := by
  rw [queued_mlfq hm, queued_mlfq (s := s.setMlfq l q) hm]
  simp only [setMlfq_mlfq]
  rcases level_cases hl with rfl | rfl | rfl <;> split_ifs <;> first | omega | abel

theorem queued_mlfqPush {s : Scheduler} {n : ℕ} (h : s.Sound n) (hm : s.schedMode = .mlfq)
    {l : ℤ} (hl : 0 ≤ l ∧ l ≤ 2) {t : ℕ} (ht : t < n) (hnot : t ∉ s.queued) :
    (s.setMlfq l (queuePush (s.mlfq l) t)).queued = t ::ₘ s.queued := by
  have hroom : (s.mlfq l).count < maxReadyQueue :=
    (count_mlfq_le hm hl).trans_lt (h.card_queued_lt ht hnot)
  have hq := queued_setMlfq hm hl (queuePush (s.mlfq l) t)
  have hpush := queuePush_eq hroom fun hmem => hnot (mem_queued_of_mlfq hm hl hmem)
  rw [hpush, RingBuffer.toList_push hroom, ← Multiset.coe_add, ← add_assoc, add_right_comm] at hq
  rw [hpush, add_right_cancel hq, Multiset.coe_singleton, add_comm, Multiset.singleton_add]

theorem wf_mlfqPush {s : Scheduler} (h : ∀ l, (s.mlfq l).WF) (l : ℤ) (t : ℕ) (l' : ℤ) :
    ((s.setMlfq l (queuePush (s.mlfq l) t)).mlfq l').WF := by
  rw [setMlfq_mlfq]
  unfold queuePush
  split_ifs with hl hfull
  · exact h l
  · exact h l
  · exact (h l).push (by omega) t
  · exact h l'

theorem queued_rrPush {s : Scheduler} {n : ℕ} (h : s.Sound n) (hm : s.schedMode = .rr) {t : ℕ}
    (ht : t < n) (hnot : t ∉ s.queued) :
    s.rr.count < maxReadyQueue ∧ (s.setRr (s.rr.push t)).queued = t ::ₘ s.queued := by
  have hcard := h.card_queued_lt ht hnot
  have hroom : s.rr.count < maxReadyQueue := by
    rw [queued_rr hm] at hcard
    simpa using hcard
  refine ⟨hroom, ?_⟩
  rw [queued_rr hm, queued_setRr hm, RingBuffer.toList_push hroom, ← Multiset.coe_add,
    Multiset.coe_singleton, add_comm, Multiset.singleton_add]

/-! ## Taking the next thread -/

theorem queued_rrPop {s : Scheduler} (hm : s.schedMode = .rr) (hwf : s.rr.WF)
    (hne : s.rr.count ≠ 0) :
    s.queued = s.rr.slots s.rr.head ::ₘ (s.setRr s.rr.pop).queued := by
  rw [queued_rr hm, queued_setRr hm, RingBuffer.toList_eq_cons hwf hne, ← Multiset.cons_coe]

theorem queued_mlfqPop {s : Scheduler} (hm : s.schedMode = .mlfq) {l : ℤ} (hl : 0 ≤ l ∧ l ≤ 2)
    (hwf : (s.mlfq l).WF) (hne : (s.mlfq l).count ≠ 0) :
    s.queued = (s.mlfq l).slots (s.mlfq l).head ::ₘ (s.setMlfq l (s.mlfq l).pop).queued := by
  have hq := queued_setMlfq hm hl (s.mlfq l).pop
  rw [RingBuffer.toList_eq_cons hwf hne, ← Multiset.cons_coe, Multiset.add_cons,
    ← Multiset.cons_add] at hq
  exact (add_right_cancel hq).symm

theorem firstReady_eq_some {s : Scheduler} {l : ℤ} (h : s.firstReady = some l) :
    (0 ≤ l ∧ l ≤ 2) ∧ (s.mlfq l).count ≠ 0 := by
  have hmem := List.mem_of_find?_eq_some h
  have hpos := List.find?_some h
  refine ⟨?_, by simpa [Nat.pos_iff_ne_zero] using hpos⟩
  simp only [List.mem_cons, List.not_mem_nil, or_false] at hmem
  omega

theorem firstReady_eq_none {s : Scheduler} (hm : s.schedMode = .mlfq) :
    s.firstReady = none ↔ s.queued = 0 := by
  rw [queued_mlfq hm]
  simp [firstReady, RingBuffer.toList_eq_nil]

/-- What `yieldCurrent` does. -/
structure Yielded (s s' : Scheduler) : Prop where
  mode : s'.schedMode = s.schedMode
  current : s'.currentThread = s.currentThread
  currentQueue : s'.currentQueue = s.currentQueue
  queued : (s'.queued = s.queued ∧ ∀ c, ¬s.Yields c) ∨
    ∃ c, s.Yields c ∧ s'.queued = c ::ₘ s.queued
  tcb : ∀ u, s'.tcb u = { s.tcb u with
    state := if s.Yields u then .ready else (s.tcb u).state
    mlfqLevel := if s.schedMode = .mlfq ∧ s.Yields u then (s.tcb u).queueLevel
      else (s.tcb u).mlfqLevel }
  rr_wf : s'.rr.WF
  mlfq_wf : ∀ l, (s'.mlfq l).WF

theorem yieldCurrent_of_not_yields {s : Scheduler} (h : ∀ c, ¬s.Yields c) :
    yieldCurrent s = s := by
  unfold yieldCurrent
  split
  · rfl
  · rename_i c hc
    exact if_neg fun hr => h c ⟨hc, hr⟩

theorem yielded {s : Scheduler} {n : ℕ} (h : s.Sound n) : Yielded s (yieldCurrent s) := by
  by_cases hy : ∃ c, s.Yields c
  · obtain ⟨c, hcur, hrun⟩ := hy
    have hcn := h.current_lt c hcur
    have hnot := (h.running c hcn hrun).2
    have hunique : ∀ u, s.Yields u ↔ u = c := fun u =>
      ⟨fun hu => Option.some.inj (hu.1.symm.trans hcur), fun hu => hu ▸ ⟨hcur, hrun⟩⟩
    cases hm : s.schedMode with
    | rr =>
      obtain ⟨hroom, hq⟩ := queued_rrPush h hm hcn hnot
      have he : yieldCurrent s = (s.setRr (s.rr.push c)).setTcb c threadYield := by
        simp only [yieldCurrent, hcur, hrun, hm, if_true]
      rw [he]
      refine ⟨rfl, rfl, rfl, Or.inr ⟨c, ⟨hcur, hrun⟩, hq⟩, fun u => ?_, h.rr_wf.push hroom c,
        h.mlfq_wf⟩
      rw [setTcb_tcb]
      simp only [hunique, hm]
      split_ifs with hu <;> simp_all [threadYield, setRr]
    | mlfq =>
      have hl := queueLevel_mem h hcn
      have he : yieldCurrent s = (s.setMlfq (s.tcb c).queueLevel
          (queuePush (s.mlfq (s.tcb c).queueLevel) c)).setTcb c
            fun t => threadYield { t with mlfqLevel := (s.tcb c).queueLevel } := by
        simp only [yieldCurrent, hcur, hrun, hm, if_true]
      rw [he]
      refine ⟨rfl, rfl, rfl, Or.inr ⟨c, ⟨hcur, hrun⟩, queued_mlfqPush h hm hl hcn hnot⟩,
        fun u => ?_, h.rr_wf, wf_mlfqPush h.mlfq_wf _ c⟩
      rw [setTcb_tcb]
      simp only [hunique, hm]
      split_ifs with hu <;> simp_all [threadYield, setMlfq]
  · have hy : ∀ c, ¬s.Yields c := fun c hc => hy ⟨c, hc⟩
    rw [yieldCurrent_of_not_yields hy]
    exact ⟨rfl, rfl, rfl, Or.inl ⟨rfl, hy⟩, fun u => by simp [hy u], h.rr_wf, h.mlfq_wf⟩

/-- Handing the processor to the thread that was just taken out of the queues. -/
theorem Yielded.switch {s s₁ s₂ : Scheduler} (h : Yielded s s₁) {t : ℕ} (quantum : ℤ)
    (hq : s₁.queued = t ::ₘ s₂.queued) (htcb : s₂.tcb = s₁.tcb) (hmode : s₂.schedMode = s₁.schedMode)
    (hrr : s₂.rr.WF) (hmlfq : ∀ l, (s₂.mlfq l).WF)
    (hcq : 0 ≤ s₂.currentQueue ∧ s₂.currentQueue ≤ 2) : Switch s (dispatch s₂ t quantum) t := by
  refine ⟨hmode.trans h.mode, rfl, ?_, fun u => ?_, hrr, hmlfq, hcq⟩
  · have hd : (dispatch s₂ t quantum).queued = s₂.queued := rfl
    rw [hd, ← hq]
    rcases h.queued with ⟨hq', hy⟩ | ⟨c, hc, hq'⟩
    · exact Or.inl ⟨hq'.symm, hy⟩
    · exact Or.inr ⟨c, hc, hq'.symm⟩
  · unfold dispatch
    rw [setTcb_tcb]
    simp only [htcb, h.tcb]
    split_ifs with hu <;> simp_all

/-- `scheduler_next` does nothing, or the thread it switches to gets the full quantum. -/
theorem schedulerNext_dispatches {s : Scheduler} {n : ℕ} (h : s.Sound n) :
    (s.queued = 0 ∧ schedulerNext s = s) ∨ ∃ t, Switch s (schedulerNext s) t ∧
      (schedulerNext s).quantumRemaining = (schedulerNext s).fullQuantum := by
  have hy := yielded h
  cases hm : s.schedMode with
  | rr =>
    by_cases hc : s.rr.count = 0
    · left
      refine ⟨?_, by simp only [schedulerNext, hm, hc, if_true]⟩
      rw [queued_rr hm, (RingBuffer.toList_eq_nil s.rr).mpr hc, Multiset.coe_nil]
    · right
      have hm' : (yieldCurrent s).schedMode = .rr := hy.mode.trans hm
      have hne : (yieldCurrent s).rr.count ≠ 0 := by
        intro h0
        have hnil : (yieldCurrent s).queued = 0 := by
          rw [queued_rr hm', (RingBuffer.toList_eq_nil _).mpr h0, Multiset.coe_nil]
        have hs : s.queued = 0 := by
          rcases hy.queued with ⟨hq, -⟩ | ⟨c, -, hq⟩
          · rw [← hq, hnil]
          · rw [hnil] at hq
            exact absurd hq.symm (Multiset.cons_ne_zero)
        rw [queued_rr hm, Multiset.coe_eq_zero, RingBuffer.toList_eq_nil] at hs
        exact hc hs
      refine ⟨(yieldCurrent s).rr.slots (yieldCurrent s).rr.head, ?_⟩
      have he : schedulerNext s = dispatch ((yieldCurrent s).setRr (yieldCurrent s).rr.pop)
          ((yieldCurrent s).rr.slots (yieldCurrent s).rr.head) schedQuantumRr := by
        simp only [schedulerNext, hm, hc, if_false]
      rw [he]
      refine ⟨hy.switch _ (queued_rrPop hm' hy.rr_wf hne) rfl rfl hy.rr_wf.pop hy.mlfq_wf
        (hy.currentQueue ▸ h.currentQueue), ?_⟩
      simp [fullQuantum, dispatch, setTcb, setRr, hm']
  | mlfq =>
    cases hf : s.firstReady with
    | none =>
      left
      exact ⟨(firstReady_eq_none hm).mp hf, by simp [schedulerNext, hm, mlfqHasReady, hf]⟩
    | some l₀ =>
      right
      have hm' : (yieldCurrent s).schedMode = .mlfq := hy.mode.trans hm
      have hsome : ∃ l, (yieldCurrent s).firstReady = some l := by
        rw [← Option.ne_none_iff_exists']
        intro h0
        have hs : s.queued = 0 := by
          rcases hy.queued with ⟨hq, -⟩ | ⟨c, -, hq⟩
          · rw [← hq, (firstReady_eq_none hm').mp h0]
          · rw [(firstReady_eq_none hm').mp h0] at hq
            exact absurd hq.symm (Multiset.cons_ne_zero)
        rw [(firstReady_eq_none hm).mpr hs] at hf
        cases hf
      obtain ⟨l, hl⟩ := hsome
      obtain ⟨hl2, hne⟩ := firstReady_eq_some hl
      refine ⟨((yieldCurrent s).mlfq l).slots ((yieldCurrent s).mlfq l).head, ?_⟩
      have he : schedulerNext s = dispatch
          { (yieldCurrent s).setMlfq l ((yieldCurrent s).mlfq l).pop with currentQueue := l }
          (((yieldCurrent s).mlfq l).slots ((yieldCurrent s).mlfq l).head) (mlfqQuantum l) := by
        simp [schedulerNext, hm, mlfqHasReady, hf, hl, queuePop, hne]
      rw [he]
      refine ⟨hy.switch _ (queued_mlfqPop hm' hl2 (hy.mlfq_wf l) hne) rfl rfl hy.rr_wf
        (fun l' => ?_) hl2, ?_⟩
      · change (((yieldCurrent s).setMlfq l ((yieldCurrent s).mlfq l).pop).mlfq l').WF
        rw [setMlfq_mlfq]
        split_ifs
        · exact (hy.mlfq_wf l).pop
        · exact hy.mlfq_wf l'
      · simp [fullQuantum, dispatch, setTcb, setMlfq, hm']

/-- Everything `scheduler_next` can do. -/
theorem schedulerNext_cases {s : Scheduler} {n : ℕ} (h : s.Sound n) :
    (s.queued = 0 ∧ schedulerNext s = s) ∨ ∃ t, Switch s (schedulerNext s) t :=
  (schedulerNext_dispatches h).imp_right fun ⟨t, sw, _⟩ => ⟨t, sw⟩

/-! ## The switch keeps the discipline -/

namespace Switch

variable {s s' : Scheduler} {t n : ℕ}

theorem mem (sw : Switch s s' t) {u : ℕ} : (u = t ∨ u ∈ s'.queued) ↔ s.Yields u ∨ u ∈ s.queued := by
  rw [← Multiset.mem_cons]
  rcases sw.queued with ⟨hq, hy⟩ | ⟨c, hc, hq⟩
  · rw [← hq]
    exact (or_iff_right (hy u)).symm
  · rw [← hq, Multiset.mem_cons]
    have hu : u = c ↔ s.Yields u :=
      ⟨fun h => h ▸ hc, fun h => Option.some.inj (h.1.symm.trans hc.1)⟩
    rw [hu]

theorem nodup (sw : Switch s s' t) (h : s.Sound n) : t ∉ s'.queued ∧ s'.queued.Nodup := by
  rw [← Multiset.nodup_cons]
  rcases sw.queued with ⟨hq, -⟩ | ⟨c, hc, hq⟩
  · exact hq ▸ h.nodup
  · rw [← hq]
    exact Multiset.nodup_cons.mpr ⟨(h.running c (h.current_lt c hc.1) hc.2).2, h.nodup⟩

theorem lt (sw : Switch s s' t) (h : s.Sound n) {u : ℕ} (hu : u = t ∨ u ∈ s'.queued) : u < n := by
  rcases sw.mem.mp hu with hy | hq
  · exact h.current_lt u hy.1
  · exact h.queued_lt u hq

theorem disciplined (sw : Switch s s' t) (h : s.Sound n) : s'.Disciplined n := by
  obtain ⟨htq, hnd⟩ := sw.nodup h
  have hstate : ∀ u, u ≠ t → (s'.tcb u).state = if s.Yields u then .ready else (s.tcb u).state := by
    intro u hu
    rw [sw.tcb]
    simp [hu]
  have hrun : (s'.tcb t).state = .running := by
    rw [sw.tcb]
    simp
  refine ⟨⟨h.n_le, sw.rr_wf, sw.mlfq_wf, hnd, fun u hu => sw.lt h (Or.inr hu), ?_, ?_, ?_, ?_,
    sw.currentQueue⟩, ?_⟩
  · intro u hu
    rw [hstate u (fun he => htq (he ▸ hu))]
    split_ifs with hy
    · exact Or.inl rfl
    · exact h.queued_state u ((sw.mem.mp (Or.inr hu)).resolve_left hy)
  · intro c hc
    rw [sw.current] at hc
    exact sw.lt h (Or.inl (Option.some.inj hc).symm)
  · intro u hu hur
    have hut : u = t := by
      by_contra hne
      rw [hstate u hne] at hur
      split_ifs at hur with hy
      exact hy ⟨(h.running u hu hur).1, hur⟩
    exact hut ▸ ⟨sw.current, htq⟩
  · intro u hu
    rw [sw.tcb]
    dsimp only
    split_ifs
    · have := queueLevel_mem h hu
      omega
    · exact h.level u hu
  · intro c hc
    rw [sw.current] at hc
    exact Option.some.inj hc ▸ ⟨htq, Or.inl hrun⟩

theorem kept (sw : Switch s s' t) (u : ℕ) : s'.kept u = s.kept u := by
  simp only [Scheduler.kept, sw.tcb]

theorem parked (sw : Switch s s' t) {u : ℕ} (hu : s.Parked u) :
    s'.tcb u = s.tcb u ∧ s'.Parked u := by
  have hy : ¬s.Yields u := fun hy => hu.2 hy.2
  have hmem : ¬(u = t ∨ u ∈ s'.queued) := fun hm => (sw.mem.mp hm).elim hy hu.1
  rw [not_or] at hmem
  have htcb : s'.tcb u = s.tcb u := by
    rw [sw.tcb]
    simp [hmem.1, hy]
  exact ⟨htcb, hmem.2, htcb ▸ hu.2⟩

end Switch

/-! ## Frames -/

/-- Blocked or done. -/
def Stopped (s : Scheduler) (u : ℕ) : Prop :=
  (s.tcb u).state = .blocked ∨ (s.tcb u).state = .done

/-- From `s` to `s'` the discipline is kept, and so is what is fixed in every TCB. Outside
`touched` the kernel's part of every TCB stays, a parked thread is left as it is, and no thread
stops. -/
structure Frame (s s' : Scheduler) (n : ℕ) (touched : Set ℕ) : Prop where
  disciplined : s'.Disciplined n
  mode : s'.schedMode = s.schedMode
  ident : ∀ u, (s'.tcb u).ident = (s.tcb u).ident
  kept : ∀ u ∉ touched, s'.kept u = s.kept u
  parked : ∀ u ∉ touched, s.Parked u → s'.tcb u = s.tcb u ∧ s'.Parked u
  stopped : ∀ u ∉ touched, s'.Stopped u → (s'.tcb u).state = (s.tcb u).state

theorem ident_of_kept {s s' : Scheduler} {u : ℕ} (h : s'.kept u = s.kept u) :
    (s'.tcb u).ident = (s.tcb u).ident :=
  have he : (s'.kept u).ident = (s.kept u).ident := congrArg TCB.ident h
  he

theorem Frame.refl {s : Scheduler} {n : ℕ} (h : s.Disciplined n) : Frame s s n ∅ :=
  ⟨h, rfl, fun _ => rfl, fun _ _ => rfl, fun _ _ hu => ⟨rfl, hu⟩, fun _ _ _ => rfl⟩

theorem Frame.mono {s s' : Scheduler} {n : ℕ} {a b : Set ℕ} (h : Frame s s' n a) (hab : a ⊆ b) :
    Frame s s' n b :=
  ⟨h.disciplined, h.mode, h.ident, fun u hu => h.kept u fun ha => hu (hab ha),
    fun u hu => h.parked u fun ha => hu (hab ha), fun u hu => h.stopped u fun ha => hu (hab ha)⟩

theorem Frame.trans {s s' s'' : Scheduler} {n : ℕ} {a : Set ℕ} (h : Frame s s' n a)
    (h' : Frame s' s'' n a) : Frame s s'' n a := by
  refine ⟨h'.disciplined, h'.mode.trans h.mode, fun u => (h'.ident u).trans (h.ident u),
    fun u hu => (h'.kept u hu).trans (h.kept u hu), fun u hu hp => ?_, fun u hu hs => ?_⟩
  · obtain ⟨he, hp'⟩ := h.parked u hu hp
    obtain ⟨he', hp''⟩ := h'.parked u hu hp'
    exact ⟨he'.trans he, hp''⟩
  · have he := h'.stopped u hu hs
    have hs' : s'.Stopped u := by
      unfold Stopped at hs ⊢
      rwa [← he]
    exact he.trans (h.stopped u hu hs')

theorem Switch.stopped {s s' : Scheduler} {t u : ℕ} (sw : Switch s s' t) (hu : s'.Stopped u) :
    (s'.tcb u).state = (s.tcb u).state := by
  unfold Stopped at hu
  rw [sw.tcb] at hu ⊢
  dsimp only at hu ⊢
  split_ifs at hu ⊢ <;> simp_all

theorem Switch.frame {s s' : Scheduler} {t n : ℕ} (sw : Switch s s' t) (h : s.Sound n) :
    Frame s s' n ∅ :=
  ⟨sw.disciplined h, sw.mode, fun u => ident_of_kept (sw.kept u), fun u _ => sw.kept u,
    fun _ _ hu => sw.parked hu, fun _ _ hu => sw.stopped hu⟩

theorem frame_schedulerNext {s : Scheduler} {n : ℕ} (h : s.Disciplined n) :
    Frame s (schedulerNext s) n ∅ := by
  rcases schedulerNext_cases h.toSound with ⟨-, he⟩ | ⟨t, sw⟩
  · rw [he]
    exact Frame.refl h
  · exact sw.frame h.toSound

/-! ## The other operations -/

theorem Disciplined.setTcb {s : Scheduler} {n t : ℕ} (h : s.Disciplined n) {f : TCB → TCB}
    (hq : t ∈ s.queued → (f (s.tcb t)).state = .ready ∨ (f (s.tcb t)).state = .done)
    (hr : (f (s.tcb t)).state = .running → (s.tcb t).state = .running)
    (hc : s.currentThread = some t →
      (f (s.tcb t)).state = .running ∨ (f (s.tcb t)).state = .done)
    (hl : t < n → -1 ≤ (f (s.tcb t)).mlfqLevel ∧ (f (s.tcb t)).mlfqLevel ≤ 2) :
    (s.setTcb t f).Disciplined n := by
  refine ⟨⟨h.n_le, h.rr_wf, h.mlfq_wf, h.nodup, h.queued_lt, ?_, h.current_lt, ?_, ?_,
    h.currentQueue⟩, ?_⟩
  · intro u hu
    by_cases hut : u = t
    · subst hut
      rw [setTcb_self]
      exact hq hu
    · rw [setTcb_of_ne s hut]
      exact h.queued_state u hu
  · intro u hu hur
    by_cases hut : u = t
    · subst hut
      rw [setTcb_self] at hur
      exact h.running u hu (hr hur)
    · rw [setTcb_of_ne s hut] at hur
      exact h.running u hu hur
  · intro u hu
    by_cases hut : u = t
    · subst hut
      rw [setTcb_self]
      exact hl hu
    · rw [setTcb_of_ne s hut]
      exact h.level u hu
  · intro c hcur
    refine ⟨(h.current c hcur).1, ?_⟩
    by_cases hct : c = t
    · subst hct
      rw [setTcb_self]
      exact hc hcur
    · rw [setTcb_of_ne s hct]
      exact (h.current c hcur).2

/-- A change of the TCBs in `touched` only. -/
theorem Frame.of_same {s s' : Scheduler} {n : ℕ} {touched : Set ℕ} (h : s'.Disciplined n)
    (hmode : s'.schedMode = s.schedMode) (hident : ∀ u ∈ touched, (s'.tcb u).ident = (s.tcb u).ident)
    (hsame : ∀ u ∉ touched, s'.tcb u = s.tcb u)
    (hq : ∀ u ∉ touched, u ∈ s'.queued → u ∈ s.queued) : Frame s s' n touched := by
  refine ⟨h, hmode, fun u => ?_, fun u hu => ?_, fun u hu hp => ?_, fun u hu _ => ?_⟩
  · by_cases hu : u ∈ touched
    · exact hident u hu
    · rw [hsame u hu]
  · simp only [Scheduler.kept, hsame u hu]
  · exact ⟨hsame u hu, fun hm => hp.1 (hq u hu hm), hsame u hu ▸ hp.2⟩
  · rw [hsame u hu]

theorem frame_setTcb {s : Scheduler} {n t : ℕ} {f : TCB → TCB}
    (h : (s.setTcb t f).Disciplined n) (hid : (f (s.tcb t)).ident = (s.tcb t).ident) :
    Frame s (s.setTcb t f) n {t} := by
  refine .of_same h rfl (fun u hu => ?_)
    (fun u hu => setTcb_of_ne s (Set.mem_singleton_iff.not.mp hu) f) fun _ _ hm => hm
  rw [Set.mem_singleton_iff.mp hu, setTcb_self, hid]

/-- A change that leaves the state and the level alone. -/
theorem frame_setTcb_of_kernel {s : Scheduler} {n t : ℕ} (h : s.Disciplined n) {f : TCB → TCB}
    (hid : (f (s.tcb t)).ident = (s.tcb t).ident) (hs : (f (s.tcb t)).state = (s.tcb t).state)
    (hl : (f (s.tcb t)).mlfqLevel = (s.tcb t).mlfqLevel) : Frame s (s.setTcb t f) n {t} :=
  frame_setTcb (h.setTcb (fun hq => hs ▸ h.queued_state t hq) (fun hr => hs ▸ hr)
    (fun hc => hs ▸ (h.current t hc).2) fun ht => hl ▸ h.level t ht) hid

/-- Marking a thread done, as `cleanup_process` does, also while it is queued or current. -/
theorem frame_markDone {s : Scheduler} {n : ℕ} (h : s.Disciplined n) (t : ℕ) :
    Frame s (s.setTcb t fun c => { c with state := .done }) n {t} :=
  frame_setTcb (h.setTcb (fun _ => Or.inr rfl) (fun hr => by cases hr) (fun _ => Or.inr rfl)
    fun ht => h.level t ht) rfl

/-- A blocked thread is in no queue and is not the current one. -/
theorem Disciplined.blocked {s : Scheduler} {n u : ℕ} (h : s.Disciplined n)
    (hb : (s.tcb u).state = .blocked) : u ∉ s.queued ∧ s.currentThread ≠ some u := by
  refine ⟨fun hq => ?_, fun hc => ?_⟩
  · rcases h.queued_state u hq with h | h <;> rw [hb] at h <;> cases h
  · rcases (h.current u hc).2 with h | h <;> rw [hb] at h <;> cases h

theorem Disciplined.parked_of_blocked {s : Scheduler} {n u : ℕ} (h : s.Disciplined n)
    (hb : (s.tcb u).state = .blocked) : s.Parked u :=
  ⟨(h.blocked hb).1, fun hr => by rw [hb] at hr; cases hr⟩

/-- A thread that was in no queue is ready and queued. -/
theorem Sound.queue {s s' : Scheduler} {n t : ℕ} (h : s.Sound n) (ht : t < n) (hnot : t ∉ s.queued)
    (hq : s'.queued = t ::ₘ s.queued) (hcur : s'.currentThread = s.currentThread)
    (hcq : s'.currentQueue = s.currentQueue) (hrr : s'.rr.WF) (hmlfq : ∀ l, (s'.mlfq l).WF)
    (hother : ∀ u, u ≠ t → s'.tcb u = s.tcb u) (hready : (s'.tcb t).state = .ready)
    (hlevel : -1 ≤ (s'.tcb t).mlfqLevel ∧ (s'.tcb t).mlfqLevel ≤ 2) : s'.Sound n := by
  refine ⟨h.n_le, hrr, hmlfq, ?_, fun u hu => ?_, fun u hu => ?_, fun c hc => h.current_lt c (hcur ▸ hc),
    fun u hu hur => ?_, fun u hu => ?_, hcq ▸ h.currentQueue⟩
  · rw [hq]
    exact Multiset.nodup_cons.mpr ⟨hnot, h.nodup⟩
  · rw [hq, Multiset.mem_cons] at hu
    rcases hu with rfl | hu
    · exact ht
    · exact h.queued_lt u hu
  · rw [hq, Multiset.mem_cons] at hu
    rcases hu with rfl | hu
    · exact Or.inl hready
    · rw [hother u fun he => hnot (he ▸ hu)]
      exact h.queued_state u hu
  · have hut : u ≠ t := by
      rintro rfl
      rw [hready] at hur
      cases hur
    rw [hother u hut] at hur
    obtain ⟨hc, hnq⟩ := h.running u hu hur
    rw [hcur, hq, Multiset.mem_cons, not_or]
    exact ⟨hc, hut, hnq⟩
  · by_cases hut : u = t
    · exact hut ▸ hlevel
    · exact hother u hut ▸ h.level u hu

/-- What `scheduler_add` does to a thread that is in no queue. -/
structure Added (s s' : Scheduler) (t : ℕ) : Prop where
  mode : s'.schedMode = s.schedMode
  current : s'.currentThread = s.currentThread
  queued : s'.queued = t ::ₘ s.queued
  tcb : ∀ u, s'.tcb u = if u = t then { s.tcb t with
      state := .ready
      mlfqLevel := if s.schedMode = .mlfq then (s.tcb t).queueLevel else (s.tcb t).mlfqLevel }
    else s.tcb u
  rr_wf : s'.rr.WF
  mlfq_wf : ∀ l, (s'.mlfq l).WF
  currentQueue : s'.currentQueue = s.currentQueue

theorem Added.register {s s' : Scheduler} {t : ℕ} (h : Added s s' t) (u : ℕ) :
    Added s (s'.register u) t := by
  unfold Scheduler.register
  split_ifs
  · exact h
  · exact ⟨h.mode, h.current, h.queued, h.tcb, h.rr_wf, h.mlfq_wf, h.currentQueue⟩
  · exact h

theorem added {s : Scheduler} {n t : ℕ} (h : s.Sound n) (ht : t < n) (hnot : t ∉ s.queued) :
    Added s (schedulerAdd s t) t := by
  cases hm : s.schedMode with
  | rr =>
    obtain ⟨hroom, hq⟩ := queued_rrPush h hm ht hnot
    have hidx : findInRr s t = none := RingBuffer.index_eq_none.mpr <| by
      rw [queued_rr hm] at hnot
      exact hnot
    have he : schedulerAdd s t =
        ((s.setRr (s.rr.push t)).setTcb t fun c => { c with state := .ready }).register t := by
      simp [schedulerAdd, hm, hidx, hroom]
    have ha : Added s ((s.setRr (s.rr.push t)).setTcb t fun c => { c with state := .ready }) t := by
      refine ⟨rfl, rfl, hq, fun u => ?_, h.rr_wf.push hroom t, h.mlfq_wf, rfl⟩
      rw [setTcb_tcb]
      simp [setRr, hm]
    exact he ▸ ha.register t
  | mlfq =>
    have hl := queueLevel_mem h ht
    have hidx : findInQueue (s.mlfq (s.tcb t).queueLevel) t = none :=
      RingBuffer.index_eq_none.mpr fun hmem => hnot (mem_queued_of_mlfq hm hl hmem)
    have he : schedulerAdd s t = ((s.setMlfq (s.tcb t).queueLevel
        (queuePush (s.mlfq (s.tcb t).queueLevel) t)).setTcb t
          fun c => { c with mlfqLevel := (s.tcb t).queueLevel, state := .ready }).register t := by
      simp [schedulerAdd, hm, hidx]
    have ha : Added s ((s.setMlfq (s.tcb t).queueLevel
        (queuePush (s.mlfq (s.tcb t).queueLevel) t)).setTcb t
          fun c => { c with mlfqLevel := (s.tcb t).queueLevel, state := .ready }) t := by
      refine ⟨rfl, rfl, queued_mlfqPush h hm hl ht hnot, fun u => ?_, h.rr_wf,
        wf_mlfqPush h.mlfq_wf _ t, rfl⟩
      rw [setTcb_tcb]
      simp [setMlfq, hm]
    exact he ▸ ha.register t

theorem Added.sound {s s' : Scheduler} {n t : ℕ} (a : Added s s' t) (h : s.Sound n) (ht : t < n)
    (hnot : t ∉ s.queued) : s'.Sound n := by
  refine h.queue ht hnot a.queued a.current a.currentQueue a.rr_wf a.mlfq_wf
    (fun u hu => by rw [a.tcb, if_neg hu]) (by rw [a.tcb, if_pos rfl]) ?_
  rw [a.tcb, if_pos rfl]
  dsimp only
  split_ifs
  · have := queueLevel_mem h ht
    omega
  · exact h.level t ht

theorem Added.disciplined {s s' : Scheduler} {n t : ℕ} (a : Added s s' t) (h : s.Disciplined n)
    (ht : t < n) (hnot : t ∉ s.queued) (hcur : s.currentThread ≠ some t) : s'.Disciplined n := by
  refine ⟨a.sound h.toSound ht hnot, fun c hc => ?_⟩
  rw [a.current] at hc
  have hct : c ≠ t := fun he => hcur (he ▸ hc)
  rw [a.queued, Multiset.mem_cons, not_or, a.tcb, if_neg hct]
  exact ⟨⟨hct, (h.current c hc).1⟩, (h.current c hc).2⟩

theorem Added.frame {s s' : Scheduler} {n t : ℕ} (a : Added s s' t) (h : s'.Disciplined n) :
    Frame s s' n {t} := by
  refine .of_same h a.mode (fun u hu => ?_) (fun u hu => ?_) fun u hu hm => ?_
  · rw [Set.mem_singleton_iff.mp hu, a.tcb, if_pos rfl]
    rfl
  · rw [a.tcb, if_neg (Set.mem_singleton_iff.not.mp hu)]
  · rw [a.queued, Multiset.mem_cons] at hm
    exact hm.resolve_left (Set.mem_singleton_iff.not.mp hu)

theorem removeQueued_of_not_mem {s : Scheduler} {t : ℕ} (h : t ∉ s.queued) :
    removeQueued s t = s := by
  cases hm : s.schedMode with
  | rr =>
    have hidx : findInRr s t = none := RingBuffer.index_eq_none.mpr <| by
      rw [queued_rr hm] at h
      exact h
    simp [removeQueued, hm, hidx]
  | mlfq =>
    have hidx : ([0, 1, 2] : List ℤ).find? (fun i => (findInQueue (s.mlfq i) t).isSome) = none := by
      rw [List.find?_eq_none]
      intro l hl hsome
      refine h (mem_queued_of_mlfq hm ?_ (RingBuffer.index_isSome.mp hsome))
      simp only [List.mem_cons, List.not_mem_nil, or_false] at hl
      omega
    simp [removeQueued, hm, hidx]

/-- Taking a thread out of the queues touches nothing else. -/
structure Removed (s s' : Scheduler) (t : ℕ) : Prop where
  mode : s'.schedMode = s.schedMode
  current : s'.currentThread = s.currentThread
  currentQueue : s'.currentQueue = s.currentQueue
  queued : s'.queued = s.queued.erase t
  tcb : s'.tcb = s.tcb
  rr_wf : s'.rr.WF
  mlfq_wf : ∀ l, (s'.mlfq l).WF

theorem removed_removeQueued {s : Scheduler} (hrr : s.rr.WF) (hmlfq : ∀ l, (s.mlfq l).WF) (t : ℕ) :
    Removed s (removeQueued s t) t := by
  by_cases hmem : t ∈ s.queued
  · cases hm : s.schedMode with
    | rr =>
      rw [queued_rr hm] at hmem
      obtain ⟨idx, hidx⟩ := Option.isSome_iff_exists.mp (RingBuffer.index_isSome.mpr hmem)
      have he : removeQueued s t = s.setRr (s.rr.removeAt idx) := by
        simp only [removeQueued, hm, findInRr, hidx, rrRemoveAt]
      rw [he]
      refine ⟨rfl, rfl, rfl, ?_, rfl, hrr.removeAt idx, hmlfq⟩
      rw [queued_setRr hm, (RingBuffer.toList_removeAt_index hrr hidx).2, queued_rr hm,
        Multiset.coe_erase]
    | mlfq =>
      obtain ⟨i, hi⟩ : ∃ i, ([0, 1, 2] : List ℤ).find?
          (fun i => (findInQueue (s.mlfq i) t).isSome) = some i := by
        rw [← Option.isSome_iff_exists, List.find?_isSome]
        rw [queued_mlfq hm, Multiset.mem_add, Multiset.mem_add] at hmem
        rcases hmem with (hmem | hmem) | hmem
        · exact ⟨0, by simp, RingBuffer.index_isSome.mpr hmem⟩
        · exact ⟨1, by simp, RingBuffer.index_isSome.mpr hmem⟩
        · exact ⟨2, by simp, RingBuffer.index_isSome.mpr hmem⟩
      have hl : 0 ≤ i ∧ i ≤ 2 := by
        have := List.mem_of_find?_eq_some hi
        simp only [List.mem_cons, List.not_mem_nil, or_false] at this
        omega
      have hsome : (findInQueue (s.mlfq i) t).isSome = true := by
        simpa using List.find?_some hi
      obtain ⟨idx, hidx⟩ := Option.isSome_iff_exists.mp hsome
      have he : removeQueued s t = s.setMlfq i ((s.mlfq i).removeAt idx) := by
        simp only [removeQueued, hm, hi, hidx, queueRemoveAt]
      obtain ⟨hin, hlist⟩ := RingBuffer.toList_removeAt_index (hmlfq i) hidx
      have hq := queued_setMlfq hm hl ((s.mlfq i).removeAt idx)
      have hcons : ((s.mlfq i).toList : Multiset ℕ) = t ::ₘ ((s.mlfq i).toList.erase t : List ℕ) := by
        rw [Multiset.cons_coe]
        exact Multiset.coe_eq_coe.mpr (List.perm_cons_erase hin)
      rw [hlist, hcons, Multiset.add_cons, ← Multiset.cons_add] at hq
      rw [he]
      refine ⟨rfl, rfl, rfl, ?_, rfl, hrr, fun l => ?_⟩
      · rw [← add_right_cancel hq, Multiset.erase_cons_head]
      · rw [setMlfq_mlfq]
        split_ifs
        · exact (hmlfq i).removeAt idx
        · exact hmlfq l
  · rw [removeQueued_of_not_mem hmem]
    exact ⟨rfl, rfl, rfl, (Multiset.erase_of_notMem hmem).symm, rfl, hrr, hmlfq⟩

/-- Thread `t` leaves the processor and the queues, blocked or done. -/
structure Withdrawn (s s' : Scheduler) (t : ℕ) : Prop where
  mode : s'.schedMode = s.schedMode
  current : s'.currentThread = if s.currentThread = some t then none else s.currentThread
  currentQueue : s'.currentQueue = s.currentQueue
  queued : s'.queued = s.queued.erase t
  stopped : s'.Stopped t
  ident : (s'.tcb t).ident = (s.tcb t).ident
  level : (s'.tcb t).mlfqLevel = (s.tcb t).mlfqLevel ∨ (s'.tcb t).mlfqLevel = s.currentQueue
  other : ∀ u, u ≠ t → s'.tcb u = s.tcb u
  rr_wf : s'.rr.WF
  mlfq_wf : ∀ l, (s'.mlfq l).WF

namespace Withdrawn

variable {s s' : Scheduler} {t n : ℕ}

theorem not_queued (w : Withdrawn s s' t) (h : s.queued.Nodup) {u : ℕ} (hu : u ∈ s'.queued) :
    u ≠ t ∧ u ∈ s.queued := by
  rw [w.queued] at hu
  exact (Multiset.Nodup.mem_erase_iff h).mp hu

theorem current_ne (w : Withdrawn s s' t) {c : ℕ} (hc : s'.currentThread = some c) :
    c ≠ t ∧ s.currentThread = some c := by
  rw [w.current] at hc
  split_ifs at hc with hcur
  refine ⟨?_, hc⟩
  rintro rfl
  exact hcur hc

theorem sound (w : Withdrawn s s' t) (h : s.Sound n) : s'.Sound n := by
  have hq : ∀ u ∈ s'.queued, u ≠ t ∧ u ∈ s.queued := fun u hu => w.not_queued h.nodup hu
  refine ⟨h.n_le, w.rr_wf, w.mlfq_wf, w.queued ▸ h.nodup.erase t, fun u hu => h.queued_lt u (hq u hu).2,
    fun u hu => ?_, fun c hc => h.current_lt c (w.current_ne hc).2, fun u hu hr => ?_, fun u hu => ?_,
    w.currentQueue ▸ h.currentQueue⟩
  · rw [w.other u (hq u hu).1]
    exact h.queued_state u (hq u hu).2
  · have hut : u ≠ t := by
      rintro rfl
      rcases w.stopped with hs | hs <;> · rw [hr] at hs; cases hs
    rw [w.other u hut] at hr
    obtain ⟨hc, hn⟩ := h.running u hu hr
    refine ⟨?_, fun hm => hn (hq u hm).2⟩
    rw [w.current, hc, if_neg fun he => hut (Option.some.inj he)]
  · by_cases hut : u = t
    · subst hut
      have := h.currentQueue
      have := h.level u hu
      rcases w.level with hl | hl
      · rwa [hl]
      · rw [hl]
        omega
    · exact w.other u hut ▸ h.level u hu

theorem disciplined (w : Withdrawn s s' t) (h : s.Disciplined n) : s'.Disciplined n := by
  refine ⟨w.sound h.toSound, fun c hc => ?_⟩
  obtain ⟨hct, hc'⟩ := w.current_ne hc
  obtain ⟨hnot, hstate⟩ := h.current c hc'
  exact ⟨fun hm => hnot (w.not_queued h.nodup hm).2, w.other c hct ▸ hstate⟩

theorem parked (w : Withdrawn s s' t) (h : s.queued.Nodup) : s'.Parked t := by
  refine ⟨fun hm => (w.not_queued h hm).1 rfl, fun hr => ?_⟩
  rcases w.stopped with hs | hs <;> · rw [hr] at hs; cases hs

theorem frame (w : Withdrawn s s' t) (h : s.Disciplined n) : Frame s s' n {t} := by
  refine .of_same (w.disciplined h) w.mode (fun u hu => ?_)
    (fun u hu => w.other u (Set.mem_singleton_iff.not.mp hu)) fun u _ hm => (w.not_queued h.nodup hm).2
  exact Set.mem_singleton_iff.mp hu ▸ w.ident

end Withdrawn

/-- The current thread gives up the processor, before the next one is dispatched. -/
def blockCurrent (s : Scheduler) (t : ℕ) : Scheduler :=
  { (if s.schedMode = .mlfq then s.setTcb t fun c => { c with mlfqLevel := s.currentQueue } else s)
    with currentThread := none }

theorem blockCurrent_tcb (s : Scheduler) (t u : ℕ) :
    (blockCurrent s t).tcb u = { s.tcb u with
      mlfqLevel := if s.schedMode = .mlfq ∧ u = t then s.currentQueue else (s.tcb u).mlfqLevel } := by
  unfold blockCurrent
  by_cases hm : s.schedMode = .mlfq
  · rw [if_pos hm]
    dsimp only
    rw [setTcb_tcb]
    by_cases hu : u = t
    · rw [if_pos hu, if_pos ⟨hm, hu⟩, hu]
    · rw [if_neg hu, if_neg fun h => hu h.2]
  · rw [if_neg hm, if_neg fun h => hm h.1]

theorem blockCurrent_rest (s : Scheduler) (t : ℕ) :
    (blockCurrent s t).schedMode = s.schedMode ∧ (blockCurrent s t).currentThread = none ∧
      (blockCurrent s t).currentQueue = s.currentQueue ∧ (blockCurrent s t).rr = s.rr ∧
      (blockCurrent s t).mlfq = s.mlfq := by
  unfold blockCurrent
  split_ifs <;> exact ⟨rfl, rfl, rfl, rfl, rfl⟩

/-- The current thread after `thread_block`, before the next one is dispatched. -/
theorem withdrawn_blockCurrent {s : Scheduler} {n t : ℕ} (h : s.Sound n)
    (hcur : s.currentThread = some t) (hnot : t ∉ s.queued) (reason : BlockReason) :
    Withdrawn s (blockCurrent (s.setTcb t fun c => threadBlock c reason) t) t ∧
      ((blockCurrent (s.setTcb t fun c => threadBlock c reason) t).tcb t).state = .blocked ∧
      ((blockCurrent (s.setTcb t fun c => threadBlock c reason) t).tcb t).waitReason = reason := by
  set s₁ := s.setTcb t fun c => threadBlock c reason with hs₁
  obtain ⟨hmode, hnone, hcq, hrr, hmlfq⟩ := blockCurrent_rest s₁ t
  have htcb := blockCurrent_tcb s₁ t
  have hself : s₁.tcb t = threadBlock (s.tcb t) reason := setTcb_self _ _ _
  refine ⟨⟨hmode, by rw [hnone, if_pos hcur], hcq, ?_, Or.inl ?_, ?_, ?_, fun u hu => ?_,
    hrr ▸ h.rr_wf, hmlfq ▸ h.mlfq_wf⟩, ?_, ?_⟩
  · rw [queued_congr hmode hrr hmlfq, Multiset.erase_of_notMem hnot]
    rfl
  · rw [htcb, hself]
    rfl
  · rw [htcb, hself]
    rfl
  · rw [htcb]
    dsimp only
    split_ifs
    · exact Or.inr rfl
    · exact Or.inl (by rw [hself]; rfl)
  · rw [htcb, if_neg fun hh => hu hh.2, hs₁, setTcb_of_ne _ hu]
  · rw [htcb, hself]
    rfl
  · rw [htcb, hself]
    rfl

theorem schedulerBlock_current {s : Scheduler} {t : ℕ} (hcur : s.currentThread = some t)
    (reason : BlockReason) : schedulerBlock (s.setTcb t fun c => threadBlock c reason) t =
      schedulerNext (blockCurrent (s.setTcb t fun c => threadBlock c reason) t) := by
  have hb : ((s.setTcb t fun c => threadBlock c reason).tcb t).state ≠ .done := by
    rw [setTcb_self]
    exact fun hd => by cases hd
  have hc : (s.setTcb t fun c => threadBlock c reason).currentThread = some t := hcur
  rw [schedulerBlock, if_neg hb, if_pos hc]
  rfl

/-- Blocking the current thread : it is in no queue, and the next thread is dispatched. -/
theorem frame_schedulerBlock {s : Scheduler} {n t : ℕ} (h : s.Disciplined n)
    (hcur : s.currentThread = some t) (reason : BlockReason) {s' : Scheduler}
    (hs' : s' = schedulerBlock (s.setTcb t fun c => threadBlock c reason) t) :
    Frame s s' n {t} ∧ s'.Parked t ∧ (s'.tcb t).state = .blocked ∧
      (s'.tcb t).waitReason = reason := by
  subst hs'
  obtain ⟨w, hblocked, hreason⟩ := withdrawn_blockCurrent h.toSound hcur (h.current t hcur).1 reason
  rw [schedulerBlock_current hcur]
  have hf := frame_schedulerNext (w.disciplined h)
  obtain ⟨htcb, hp⟩ := hf.parked t (Set.notMem_empty t) (w.parked h.nodup)
  exact ⟨(w.frame h).trans (hf.mono (Set.empty_subset _)), hp, htcb ▸ hblocked, htcb ▸ hreason⟩

/-- The same queues, states and current thread. -/
theorem Disciplined.transfer {s s' : Scheduler} {n : ℕ} (h : s.Disciplined n)
    (hq : s'.queued = s.queued) (hcur : s'.currentThread = s.currentThread)
    (hstate : ∀ u, (s'.tcb u).state = (s.tcb u).state)
    (hlevel : ∀ u < n, -1 ≤ (s'.tcb u).mlfqLevel ∧ (s'.tcb u).mlfqLevel ≤ 2)
    (hrr : s'.rr.WF) (hmlfq : ∀ l, (s'.mlfq l).WF)
    (hcq : 0 ≤ s'.currentQueue ∧ s'.currentQueue ≤ 2) : s'.Disciplined n := by
  refine ⟨⟨h.n_le, hrr, hmlfq, hq ▸ h.nodup, hq ▸ h.queued_lt, fun u hu => ?_,
    fun c hc => h.current_lt c (hcur ▸ hc), fun u hu hr => ?_, hlevel, hcq⟩, fun c hc => ?_⟩
  · rw [hstate]
    exact h.queued_state u (hq ▸ hu)
  · rw [hcur, hq]
    exact h.running u hu (hstate u ▸ hr)
  · rw [hq, hstate]
    exact h.current c (hcur ▸ hc)

theorem Disciplined.congr {s s' : Scheduler} {n : ℕ} (h : s.Disciplined n)
    (htcb : s'.tcb = s.tcb) (hrr : s'.rr = s.rr) (hmlfq : s'.mlfq = s.mlfq)
    (hcur : s'.currentThread = s.currentThread) (hmode : s'.schedMode = s.schedMode)
    (hcq : s'.currentQueue = s.currentQueue) : Frame s s' n ∅ := by
  have hq := queued_congr hmode hrr hmlfq
  exact .of_same (h.transfer hq hcur (fun u => by rw [htcb]) (htcb ▸ h.level) (hrr ▸ h.rr_wf)
    (hmlfq ▸ h.mlfq_wf) (hcq ▸ h.currentQueue)) hmode (fun u _ => by rw [htcb])
    (fun u _ => by rw [htcb]) fun u _ hm => hq ▸ hm

/-! ## The quantum and the boost -/

/-- What one round of the boost does : thread `t` moves to the first queue. -/
structure Boosted (s s' : Scheduler) (t : ℕ) : Prop where
  mode : s'.schedMode = s.schedMode
  current : s'.currentThread = s.currentThread
  currentQueue : s'.currentQueue = s.currentQueue
  mem : t ∈ s.queued
  queued : s'.queued = s.queued
  tcb : ∀ u, s'.tcb u = if u = t then { s.tcb t with mlfqLevel := 0 } else s.tcb u
  rr_wf : s'.rr.WF
  mlfq_wf : ∀ l, (s'.mlfq l).WF

/-- The first thread of queue `i` is taken out. -/
def boostPop (s : Scheduler) (i : ℤ) : Scheduler :=
  (s.setMlfq i (s.mlfq i).pop).setTcb ((s.mlfq i).slots (s.mlfq i).head)
    fun c => { c with mlfqLevel := 0 }

/-- One round of the boost. -/
def boostStep (s : Scheduler) (i : ℤ) : Scheduler :=
  (boostPop s i).setMlfq 0
    (queuePush ((boostPop s i).mlfq 0) ((s.mlfq i).slots (s.mlfq i).head))

theorem boostQueue_succ (i : ℤ) (fuel : ℕ) (s : Scheduler) :
    boostQueue i (fuel + 1) s =
      if (s.mlfq i).count = 0 then s else boostQueue i fuel (boostStep s i) := by
  rw [boostQueue]
  by_cases hne : (s.mlfq i).count = 0
  · have hpop : queuePop (s.mlfq i) = none := if_pos hne
    rw [hpop, if_pos hne]
  · have hpop : queuePop (s.mlfq i) = some ((s.mlfq i).slots (s.mlfq i).head, (s.mlfq i).pop) :=
      if_neg hne
    rw [hpop, if_neg hne]
    rfl

theorem boostPop_tcb (s : Scheduler) (i : ℤ) (u : ℕ) :
    (boostPop s i).tcb u = if u = (s.mlfq i).slots (s.mlfq i).head then
      { s.tcb ((s.mlfq i).slots (s.mlfq i).head) with mlfqLevel := 0 } else s.tcb u :=
  setTcb_tcb _ _ _ _

/-- The thread leaves the queues of a scheduler that is sound. -/
theorem boostPop_spec {s : Scheduler} {n : ℕ} {i : ℤ} (hi : 0 ≤ i ∧ i ≤ 2)
    (hm : s.schedMode = .mlfq) (h : s.Sound n) (hne : (s.mlfq i).count ≠ 0) :
    s.queued = (s.mlfq i).slots (s.mlfq i).head ::ₘ (boostPop s i).queued ∧
      (boostPop s i).Sound n := by
  set t := (s.mlfq i).slots (s.mlfq i).head with ht
  have hq : s.queued = t ::ₘ (boostPop s i).queued := queued_mlfqPop hm hi (h.mlfq_wf i) hne
  have hsub : ∀ u ∈ (boostPop s i).queued, u ∈ s.queued :=
    fun u hu => hq ▸ Multiset.mem_cons_of_mem hu
  have hstate : ∀ u, ((boostPop s i).tcb u).state = (s.tcb u).state := by
    intro u
    rw [boostPop_tcb]
    split_ifs with hut
    · rw [hut]
    · rfl
  refine ⟨hq, h.n_le, h.rr_wf, fun l => ?_, ?_, fun u hu => h.queued_lt u (hsub u hu), fun u hu => ?_,
    h.current_lt, fun u hu hr => ?_, fun u hu => ?_, h.currentQueue⟩
  · change ((s.setMlfq i (s.mlfq i).pop).mlfq l).WF
    rw [setMlfq_mlfq]
    split_ifs
    · exact (h.mlfq_wf i).pop
    · exact h.mlfq_wf l
  · exact (Multiset.nodup_cons.mp (hq ▸ h.nodup)).2
  · rw [hstate]
    exact h.queued_state u (hsub u hu)
  · obtain ⟨hc, hn⟩ := h.running u hu (hstate u ▸ hr)
    exact ⟨hc, fun hmem => hn (hsub u hmem)⟩
  · rw [boostPop_tcb]
    split_ifs
    · dsimp only
      decide
    · exact h.level u hu

theorem boosted {s : Scheduler} {n : ℕ} {i : ℤ} (hi : 0 ≤ i ∧ i ≤ 2) (hm : s.schedMode = .mlfq)
    (h : s.Sound n) (hne : (s.mlfq i).count ≠ 0) :
    Boosted s (boostStep s i) ((s.mlfq i).slots (s.mlfq i).head) := by
  obtain ⟨hq, hsound⟩ := boostPop_spec hi hm h hne
  have hmem : (s.mlfq i).slots (s.mlfq i).head ∈ s.queued := hq ▸ Multiset.mem_cons_self _ _
  have hnot := (Multiset.nodup_cons.mp (hq ▸ h.nodup)).1
  refine ⟨rfl, rfl, rfl, hmem, ?_, boostPop_tcb s i, h.rr_wf, wf_mlfqPush hsound.mlfq_wf 0 _⟩
  have hpush := queued_mlfqPush hsound hm (l := 0) (by omega) (h.queued_lt _ hmem) hnot
  rw [← hq] at hpush
  exact hpush

namespace Boosted

variable {s s' : Scheduler} {t n : ℕ}

theorem state (b : Boosted s s' t) (u : ℕ) : (s'.tcb u).state = (s.tcb u).state := by
  rw [b.tcb]
  split_ifs with hut
  · rw [hut]
  · rfl

theorem level (b : Boosted s s' t) (h : s.Sound n) {u : ℕ} (hu : u < n) :
    -1 ≤ (s'.tcb u).mlfqLevel ∧ (s'.tcb u).mlfqLevel ≤ 2 := by
  rw [b.tcb]
  split_ifs
  · dsimp only
    decide
  · exact h.level u hu

theorem frame (b : Boosted s s' t) (h : s.Disciplined n) : Frame s s' n ∅ := by
  have hkept : ∀ u, s'.kept u = s.kept u := by
    intro u
    simp only [kept, b.tcb]
    split_ifs with hut
    · rw [hut]
    · rfl
  have hd := h.transfer b.queued b.current b.state (fun u hu => b.level h.toSound hu) b.rr_wf
    b.mlfq_wf (b.currentQueue ▸ h.currentQueue)
  refine ⟨hd, b.mode, fun u => ident_of_kept (hkept u), fun u _ => hkept u, fun u _ hp => ?_,
    fun u _ _ => b.state u⟩
  have hut : u ≠ t := fun he => hp.1 (he ▸ b.mem)
  refine ⟨?_, b.queued ▸ hp.1, b.state u ▸ hp.2⟩
  rw [b.tcb, if_neg hut]

end Boosted

theorem frame_boostQueue {i : ℤ} (hi : 0 ≤ i ∧ i ≤ 2) {n : ℕ} :
    ∀ (fuel : ℕ) (s : Scheduler), s.schedMode = .mlfq → s.Disciplined n →
      Frame s (boostQueue i fuel s) n ∅
  | 0, s, _, h => Frame.refl h
  | fuel + 1, s, hm, h => by
    rw [boostQueue_succ]
    split_ifs with hne
    · exact Frame.refl h
    · have b := boosted hi hm h.toSound hne
      have hf := b.frame h
      exact hf.trans (frame_boostQueue hi fuel _ (b.mode.trans hm) hf.disciplined)

theorem frame_schedulerPriorityBoost {s : Scheduler} {n : ℕ} (h : s.Disciplined n) (tick : ℤ) :
    Frame s (schedulerPriorityBoost s tick) n ∅ := by
  unfold schedulerPriorityBoost
  split
  · exact Frame.refl h
  · rename_i hm
    have h0 : Frame s { s with
        lastBoostTick := tick, priorityBoostCount := s.priorityBoostCount + 1 } n ∅ :=
      h.congr rfl rfl rfl rfl rfl rfl
    have h1 := h0.trans (frame_boostQueue (i := 1) (by omega) (s.mlfq 1).count _ hm h0.disciplined)
    exact h1.trans (frame_boostQueue (i := 2) (by omega) _ _ (h1.mode.trans hm) h1.disciplined)

/-- What the demotion of the running thread `c` does : it is queued while it is still the current
one. -/
structure Demoted (s s' : Scheduler) (c : ℕ) : Prop where
  mode : s'.schedMode = s.schedMode
  current : s'.currentThread = s.currentThread
  currentQueue : s'.currentQueue = s.currentQueue
  queued : s'.queued = c ::ₘ s.queued
  other : ∀ u, u ≠ c → s'.tcb u = s.tcb u
  self : ∃ level, (0 ≤ level ∧ level ≤ 2) ∧
    s'.tcb c = { s.tcb c with state := .ready, mlfqLevel := level }
  rr_wf : s'.rr.WF
  mlfq_wf : ∀ l, (s'.mlfq l).WF

theorem demoted {s : Scheduler} {n c : ℕ} (h : s.Sound n) (hm : s.schedMode = .mlfq) (hc : c < n)
    (hrun : (s.tcb c).state = .running) : Demoted s (demoteCurrent s c) c := by
  have hcq := h.currentQueue
  set level : ℤ := if 2 < s.currentQueue + 1 then 2 else s.currentQueue + 1 with hlevel
  have hl : 0 ≤ level ∧ level ≤ 2 := by
    rw [hlevel]
    split_ifs <;> omega
  have he : demoteCurrent s c = (s.setMlfq level (queuePush (s.mlfq level) c)).setTcb c
      fun t => threadYield { t with mlfqLevel := level } := if_pos ⟨hm, hrun⟩
  rw [he]
  refine ⟨rfl, rfl, rfl, queued_mlfqPush h hm hl hc (h.running c hc hrun).2,
    fun u hu => setTcb_of_ne _ hu _, ⟨level, hl, ?_⟩, h.rr_wf, wf_mlfqPush h.mlfq_wf level c⟩
  rw [setTcb_self]
  simp [threadYield, setMlfq, hrun]

theorem Demoted.sound {s s' : Scheduler} {n c : ℕ} (d : Demoted s s' c) (h : s.Sound n) (hc : c < n)
    (hnot : c ∉ s.queued) : s'.Sound n := by
  obtain ⟨level, hl, hself⟩ := d.self
  refine h.queue hc hnot d.queued d.current d.currentQueue d.rr_wf d.mlfq_wf d.other (by rw [hself]) ?_
  rw [hself]
  dsimp only
  omega

/-- The switch that follows a demotion restores the discipline. -/
theorem frame_demote_next {s : Scheduler} {n c : ℕ} (h : s.Disciplined n)
    (hcur : s.currentThread = some c) : Frame s (schedulerNext (demoteCurrent s c)) n ∅ := by
  by_cases hd : s.schedMode = .mlfq ∧ (s.tcb c).state = .running
  · have hc := h.current_lt c hcur
    have d := demoted h.toSound hd.1 hc hd.2
    have hsound := d.sound h.toSound hc (h.current c hcur).1
    obtain ⟨level, -, hself⟩ := d.self
    rcases schedulerNext_cases hsound with ⟨h0, -⟩ | ⟨t, sw⟩
    · rw [d.queued] at h0
      exact absurd h0 Multiset.cons_ne_zero
    · have hkept : ∀ u, (schedulerNext (demoteCurrent s c)).kept u = s.kept u := by
        intro u
        rw [sw.kept]
        by_cases huc : u = c
        · simp only [kept, huc, hself]
        · simp only [kept, d.other u huc]
      refine ⟨sw.disciplined hsound, sw.mode.trans d.mode, fun u => ident_of_kept (hkept u),
        fun u _ => hkept u, fun u _ hp => ?_, fun u _ hs => ?_⟩
      · have huc : u ≠ c := fun huc => hp.2 (huc ▸ hd.2)
        have hp₁ : (demoteCurrent s c).Parked u := by
          refine ⟨?_, d.other u huc ▸ hp.2⟩
          rw [d.queued, Multiset.mem_cons, not_or]
          exact ⟨huc, hp.1⟩
        obtain ⟨he', hp'⟩ := sw.parked hp₁
        exact ⟨he'.trans (d.other u huc), hp'⟩
      · have he' := sw.stopped hs
        have huc : u ≠ c := by
          rintro rfl
          unfold Stopped at hs
          rw [he', hself] at hs
          simp at hs
        rw [he', d.other u huc]
  · have he : demoteCurrent s c = s := if_neg hd
    rw [he]
    exact frame_schedulerNext h

theorem frame_chargeQuantum {s : Scheduler} {n : ℕ} (h : s.Disciplined n) :
    Frame s (chargeQuantum s) n ∅ := by
  unfold chargeQuantum
  split
  · exact frame_schedulerNext h
  · rename_i c hc
    have hq : Frame s { s with quantumRemaining := s.quantumRemaining - 1 } n ∅ :=
      h.congr rfl rfl rfl rfl rfl rfl
    dsimp only
    split_ifs
    · exact hq.trans (frame_demote_next hq.disciplined hc)
    · exact hq

theorem frame_schedulerTick {s : Scheduler} {n : ℕ} (h : s.Disciplined n) (tick : ℤ) :
    Frame s (schedulerTick s tick) n ∅ := by
  obtain ⟨b, hcase⟩ := schedulerTick_cases s tick
  have h₀ : Frame s { s with lastBoostTick := b } n ∅ := h.congr rfl rfl rfl rfl rfl rfl
  have h₁ := h₀.trans (frame_chargeQuantum h₀.disciplined)
  rcases hcase with he | ⟨-, he⟩ <;> rw [he]
  · exact h₁
  · exact h₁.trans (frame_schedulerPriorityBoost h₁.disciplined tick)

theorem withdrawn_schedulerTerminate {s : Scheduler} (hrr : s.rr.WF) (hmlfq : ∀ l, (s.mlfq l).WF)
    (t : ℕ) : Withdrawn s (schedulerTerminate s t) t ∧ ((schedulerTerminate s t).tcb t).state = .done := by
  set s₀ := if s.currentThread = some t then { s with currentThread := none } else s with hs₀
  have hsame : s₀.schedMode = s.schedMode ∧ s₀.currentQueue = s.currentQueue ∧
      s₀.queued = s.queued ∧ s₀.tcb = s.tcb ∧ s₀.rr.WF ∧ ∀ l, (s₀.mlfq l).WF := by
    rw [hs₀]
    split_ifs <;> exact ⟨rfl, rfl, rfl, rfl, hrr, hmlfq⟩
  obtain ⟨hmode, hcq, hqueued, htcb, hrr₀, hmlfq₀⟩ := hsame
  have hcur : s₀.currentThread = if s.currentThread = some t then none else s.currentThread := by
    rw [hs₀]
    split_ifs <;> rfl
  have r := removed_removeQueued hrr₀ hmlfq₀ t
  have he : schedulerTerminate s t = (removeQueued s₀ t).setTcb t fun c => { c with state := .done } :=
    rfl
  have hself : (schedulerTerminate s t).tcb t = { s.tcb t with state := .done } := by
    rw [he, setTcb_self, r.tcb, htcb]
  refine ⟨⟨r.mode.trans hmode, r.current.trans hcur, r.currentQueue.trans hcq, ?_, Or.inr ?_, ?_,
    Or.inl ?_, fun u hu => ?_, r.rr_wf, r.mlfq_wf⟩, ?_⟩
  · exact r.queued.trans (by rw [hqueued])
  · rw [hself]
  · rw [hself]
    rfl
  · rw [hself]
  · rw [he, setTcb_of_ne _ hu, r.tcb, htcb]
  · rw [hself]

/-- Terminating the current thread leaves it done and without the processor. -/
theorem frame_schedulerTerminate {s : Scheduler} {n t : ℕ} (h : s.Disciplined n) :
    Frame s (schedulerTerminate s t) n {t} ∧ (schedulerTerminate s t).Parked t ∧
      ((schedulerTerminate s t).tcb t).state = .done := by
  obtain ⟨w, hdone⟩ := withdrawn_schedulerTerminate h.rr_wf h.mlfq_wf t
  exact ⟨w.frame h, w.parked h.nodup, hdone⟩

/-- A ready thread is added to the table. -/
theorem Disciplined.extend {s : Scheduler} {n : ℕ} (h : s.Disciplined n) (hn : n < maxThreads)
    {f : TCB → TCB} (hst : (f (s.tcb n)).state = .ready)
    (hl : -1 ≤ (f (s.tcb n)).mlfqLevel ∧ (f (s.tcb n)).mlfqLevel ≤ 2) :
    (s.setTcb n f).Disciplined (n + 1) := by
  have hother : ∀ u < n, (s.setTcb n f).tcb u = s.tcb u := fun u hu => setTcb_of_ne s hu.ne f
  refine ⟨⟨hn, h.rr_wf, h.mlfq_wf, h.nodup, fun u hu => (h.queued_lt u hu).trans n.lt_succ_self,
    fun u hu => ?_, fun c hc => (h.current_lt c hc).trans n.lt_succ_self, fun u hu hr => ?_,
    fun u hu => ?_, h.currentQueue⟩, fun c hc => ?_⟩
  · rw [hother u (h.queued_lt u hu)]
    exact h.queued_state u hu
  · rcases Nat.lt_succ_iff_lt_or_eq.mp hu with hu | rfl
    · rw [hother u hu] at hr
      exact h.running u hu hr
    · rw [setTcb_self, hst] at hr
      cases hr
  · rcases Nat.lt_succ_iff_lt_or_eq.mp hu with hu | rfl
    · rw [hother u hu]
      exact h.level u hu
    · rw [setTcb_self]
      exact hl
  · rw [hother c (h.current_lt c hc)]
    exact h.current c hc

/-- A fresh scheduler over threads of which none runs. -/
theorem disciplined_schedulerInit (s : Scheduler) (mode : SchedMode) {n : ℕ} (hn : n ≤ maxThreads)
    (hstate : ∀ t < n, (s.tcb t).state ≠ .running)
    (hlevel : ∀ t < n, -1 ≤ (s.tcb t).mlfqLevel ∧ (s.tcb t).mlfqLevel ≤ 2) :
    (schedulerInit s mode).Disciplined n := by
  have hwf : (⟨fun _ => 0, 0, 0⟩ : ReadyQueue).WF := ⟨by decide, Nat.zero_le _⟩
  have hq : (schedulerInit s mode).queued = 0 := by
    cases mode <;> rfl
  refine ⟨⟨hn, hwf, fun _ => hwf, ?_, ?_, ?_, ?_, ?_, hlevel, by simp [schedulerInit]⟩, ?_⟩
  · simp [hq]
  · simp [hq]
  · simp [hq]
  · simp [schedulerInit]
  · exact fun t ht hr => absurd hr (hstate t ht)
  · simp [schedulerInit]

end Scheduler

end FleetOS
