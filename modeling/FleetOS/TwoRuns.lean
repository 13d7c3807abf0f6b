import Mathlib.Data.List.Basic
import Mathlib.Logic.Function.Iterate

/-!
# What a run prints

A loop that prints something in each of its rounds, over the elements of a list (`foldOut`) or
as often as asked (`runOut`). Where a relation makes two states print the same and is kept by a
round, two related runs print the same and end in related states.
-/

namespace TwoRuns

variable {σ α ο : Type*}

/-- Two branches on conditions that hold together. -/
theorem ite_rel {R : σ → σ → Prop} {c c' : Prop} [Decidable c] [Decidable c'] {a a' b b' : σ}
    (hc : c' ↔ c) (ht : c → R a a') (he : ¬c → R b b') :
    R (if c then a else b) (if c' then a' else b') := by
  by_cases h : c
  · rw [if_pos h, if_pos (hc.mpr h)]
    exact ht h
  · rw [if_neg h, if_neg fun h' => h (hc.mp h')]
    exact he h

theorem ite_eq {c c' : Prop} [Decidable c] [Decidable c'] {a a' b b' : σ} (hc : c' ↔ c)
    (ht : c → a' = a) (he : ¬c → b' = b) :
    (if c' then a' else b') = if c then a else b :=
  ite_rel hc.symm (fun h => ht (hc.mp h)) fun h => he fun h' => h (hc.mpr h')

/-- The output of the loop `l.foldl step s`, whose round for `a` prints `out s a`. -/
def foldOut (step : σ → α → σ) (out : σ → α → List ο) : σ → List α → List ο
  | _, [] => []
  | s, a :: l => out s a ++ foldOut step out (step s a) l

/-- The output of `n` rounds from `s`. -/
def runOut (step : σ → σ) (out : σ → List ο) (n : ℕ) (s : σ) : List ο :=
  (List.range n).flatMap fun i => out (step^[i] s)

section fold

variable {R : σ → σ → Prop} {step : σ → α → σ} {out : σ → α → List ο} {l : List α}

theorem foldOut_eq (hstep : ∀ a ∈ l, ∀ s s', R s s' → R (step s a) (step s' a))
    (hout : ∀ a ∈ l, ∀ s s', R s s' → out s' a = out s a) {s s' : σ} (h : R s s') :
    foldOut step out s' l = foldOut step out s l := by
  induction l generalizing s s' with
  | nil => rfl
  | cons a l ih =>
    have ha : a ∈ a :: l := List.mem_cons_self
    have htail := ih (fun b hb => hstep b (List.mem_cons_of_mem a hb))
      (fun b hb => hout b (List.mem_cons_of_mem a hb)) (hstep a ha s s' h)
    simp only [foldOut, hout a ha s s' h, htail]

end fold

section run

variable {R : σ → σ → Prop} {step : σ → σ} {out : σ → List ο} {s s' : σ}

theorem iterate_rel (hstep : ∀ s s', R s s' → R (step s) (step s')) (n : ℕ) (h : R s s') :
    R (step^[n] s) (step^[n] s') := by
  induction n with
  | zero => exact h
  | succ n ih =>
    rw [Function.iterate_succ_apply', Function.iterate_succ_apply']
    exact hstep _ _ ih

theorem runOut_eq (hstep : ∀ s s', R s s' → R (step s) (step s'))
    (hout : ∀ s s', R s s' → out s' = out s) (n : ℕ) (h : R s s') :
    runOut step out n s' = runOut step out n s := by
  have hround (i : ℕ) : out (step^[i] s') = out (step^[i] s) :=
    hout _ _ (iterate_rel hstep i h)
  simp only [runOut, hround]

end run

end TwoRuns
