import Mathlib.Data.List.Basic

/-!
# Compacting an array in place

A loop over an array that moves the entries that pass a test to its front, with an index for
the next place (`compact`). The array it leaves begins with the kept entries, in their order and
up to that index (`take_compact`).
-/

namespace Compaction

variable {α : Type*} {keep : α → Bool} {l : List α} {s : List α × ℕ} {n : ℕ}

/-- The round for entry `i`, with the array and the next place. -/
def step (keep : α → Bool) (s : List α × ℕ) (i : ℕ) : List α × ℕ :=
  match s.1[i]? with
  | none => s
  | some a => if keep a then (s.1.set s.2 a, s.2 + 1) else s

def compact (keep : α → Bool) (l : List α) : List α × ℕ :=
  (List.range l.length).foldl (step keep) (l, 0)

/-- After `n` rounds : the kept entries of the first `n` are in front, and the others are as they
were. -/
structure Inv (keep : α → Bool) (l : List α) (n : ℕ) (s : List α × ℕ) : Prop where
  front : s.1.take s.2 = (l.take n).filter keep
  rest : s.1.drop n = l.drop n
  place_le : s.2 ≤ n
  length : s.1.length = l.length

theorem Inv.step (h : Inv keep l n s) (hn : n < l.length) : Inv keep l (n + 1) (step keep s n) := by
  have hget : s.1[n]? = some l[n] := by
    have hrest := congrArg (·[0]?) h.rest
    simp only [List.getElem?_drop, Nat.add_zero] at hrest
    rw [hrest, List.getElem?_eq_getElem hn]
  have hlast : (l.take (n + 1)).filter keep =
      (l.take n).filter keep ++ if keep l[n] then [l[n]] else [] := by
    rw [List.take_succ_eq_append_getElem hn, List.filter_append, List.filter_singleton]
    cases keep l[n] <;> rfl
  have hdrop {l' : List α} (he : l'.drop n = l.drop n) : l'.drop (n + 1) = l.drop (n + 1) := by
    rw [← List.drop_drop, he, List.drop_drop]
  have hplace := h.place_le
  rw [Compaction.step, hget]
  dsimp only
  split_ifs with hk
  · have hlt : s.2 < s.1.length := by rw [h.length]; omega
    refine ⟨?_, ?_, by omega, by rw [List.length_set, h.length]⟩
    · rw [hlast, if_pos hk, ← h.front, List.take_succ_eq_append_getElem (by simpa using hlt),
        List.take_set_of_le (Nat.le_refl _), List.getElem_set_self]
    · rw [List.drop_set_of_lt (by omega)]
      exact hdrop h.rest
  · refine ⟨?_, hdrop h.rest, by omega, h.length⟩
    rw [hlast, if_neg hk, List.append_nil, h.front]

theorem inv_compact (keep : α → Bool) (l : List α) : Inv keep l l.length (compact keep l) := by
  have hrun : ∀ n ≤ l.length, Inv keep l n ((List.range n).foldl (step keep) (l, 0)) := by
    intro n
    induction n with
    | zero => exact fun _ => ⟨rfl, rfl, (Nat.le_refl _), rfl⟩
    | succ n ih =>
      intro hn
      rw [List.range_succ, List.foldl_append]
      exact (ih (Nat.le_of_succ_le hn)).step hn
  exact hrun l.length (Nat.le_refl _)

theorem take_compact (keep : α → Bool) (l : List α) :
    (compact keep l).1.take (compact keep l).2 = l.filter keep := by
  rw [(inv_compact keep l).front, List.take_length]

end Compaction
