import Mathlib.Data.Nat.Init
import Mathlib.Logic.Function.Iterate

/-!
# Runs of a machine

A machine is a step function, and its run from `s` goes through `step^[n] s`. What every step
keeps, as long as the states it starts from satisfy a condition, holds from any point of such
a run on (`Machine.invariant_from`). Where every step lowers a measure until the machine is done,
it is done after as many steps (`Machine.done_iterate`).
-/

namespace Machine

variable {σ : Type*} {step : σ → σ} {s : σ} {Inv P : σ → Prop}

theorem invariant_from (hstep : ∀ s, Inv s → P s → Inv (step s)) {i n : ℕ} (hin : i ≤ n)
    (hP : ∀ m, i ≤ m → m < n → P (step^[m] s)) (hi : Inv (step^[i] s)) : Inv (step^[n] s) := by
  induction n, hin using Nat.le_induction with
  | base => exact hi
  | succ n hin ih =>
    rw [Function.iterate_succ_apply']
    exact hstep _ (ih fun m hm hmn => hP m hm (Nat.lt_succ_of_lt hmn)) (hP n hin n.lt_succ_self)

theorem invariant (hstep : ∀ s, Inv s → P s → Inv (step s)) {n : ℕ}
    (hP : ∀ m < n, P (step^[m] s)) (h0 : Inv s) : Inv (step^[n] s) :=
  invariant_from hstep n.zero_le (fun m _ hm => hP m hm) h0

theorem done_iterate {D : σ → Prop} {left : σ → ℕ} (hstep : ∀ s, Inv s → Inv (step s))
    (hstay : ∀ s, D s → D (step s))
    (hlower : ∀ s, Inv s → ¬D s → left (step s) < left s) {n : ℕ} (h0 : Inv s)
    (hn : left s ≤ n) : D (step^[n] s) := by
  induction n generalizing s with
  | zero =>
    by_contra hd
    have := hlower s h0 hd
    omega
  | succ n ih =>
    by_cases hd : D s
    · exact invariant (P := fun _ => True) (fun s h _ => hstay s h) (fun _ _ => trivial) hd
    · rw [Function.iterate_succ_apply]
      have := hlower s h0 hd
      exact ih (hstep s h0) (by omega)

theorem along_iff {α : Type*} {next : σ → α → σ} {Good Cond : σ → α → Prop}
    (hstep : ∀ s a, Inv s → (Good s a ↔ Cond s a) ∧ (Cond s a → Inv (next s a))) (h0 : Inv s)
    (l : List α) :
    (∀ n (hn : n < l.length), Good ((l.take n).foldl next s) l[n]) ↔
      ∀ n (hn : n < l.length), Cond ((l.take n).foldl next s) l[n] := by
  induction l generalizing s with
  | nil => exact iff_of_true (fun n hn => absurd hn n.not_lt_zero) fun n hn => absurd hn n.not_lt_zero
  | cons a l ih =>
    obtain ⟨hiff, hkeep⟩ := hstep s a h0
    -- the first step decides, or the run goes on from a state with the invariant
    constructor
    · intro h n hn
      have hc := hiff.mp (h 0 (Nat.succ_pos _))
      cases n with
      | zero => exact hc
      | succ n =>
        exact (ih (hkeep hc)).mp (fun m hm => h (m + 1) (Nat.succ_lt_succ hm)) n
          (Nat.lt_of_succ_lt_succ hn)
    · intro h n hn
      have hc := h 0 (Nat.succ_pos _)
      cases n with
      | zero => exact hiff.mpr hc
      | succ n =>
        exact (ih (hkeep hc)).mpr (fun m hm => h (m + 1) (Nat.succ_lt_succ hm)) n
          (Nat.lt_of_succ_lt_succ hn)

theorem view_foldl_iff {α τ : Type*} {next : σ → α → σ} {spec : τ → α → τ} {view : σ → τ}
    (l : List α) :
    (∀ n (hn : n < l.length), view (next ((l.take n).foldl next s) l[n]) =
        spec (view ((l.take n).foldl next s)) l[n]) ↔
      ∀ n ≤ l.length, view ((l.take n).foldl next s) = (l.take n).foldl spec (view s) := by
  have hsucc : ∀ n (hn : n < l.length), l.take (n + 1) = l.take n ++ [l[n]] :=
    fun n hn => List.take_succ_eq_append_getElem hn
  constructor
  · intro h n
    induction n with
    | zero => exact fun _ => rfl
    | succ n ih =>
      intro hn
      rw [hsucc n hn, List.foldl_append, List.foldl_append, ← ih (Nat.le_of_succ_le hn)]
      exact h n hn
  · intro h n hn
    have hnext := h (n + 1) hn
    rw [hsucc n hn, List.foldl_append, List.foldl_append, ← h n (Nat.le_of_lt hn)] at hnext
    exact hnext

/-! ## Steps that may fail -/

section failures

variable {ε : Type*} {tryStep : σ → Except ε σ}

def tryRun (tryStep : σ → Except ε σ) : ℕ → σ → Except ε σ
  | 0, s => .ok s
  | n + 1, s => (tryRun tryStep n s).bind tryStep

theorem tryRun_eq_ok {n : ℕ} (h : ∀ k < n, tryStep (step^[k] s) = .ok (step (step^[k] s))) :
    tryRun tryStep n s = .ok (step^[n] s) := by
  induction n with
  | zero => rfl
  | succ n ih =>
    rw [tryRun, ih fun k hk => h k (Nat.lt_succ_of_lt hk), Function.iterate_succ_apply']
    exact h n n.lt_succ_self

theorem tryRun_eq_error {e : ε} (h : tryStep s = .error e) (n : ℕ) :
    tryRun tryStep (n + 1) s = .error e := by
  induction n with
  | zero => exact h
  | succ n ih =>
    rw [tryRun, ih]
    rfl

end failures

end Machine
