import Mathlib.Tactic

/-!
# Flags that advance like an odometer

The flags below `n` are the binary digits of a number (`value`). A change that sets the first
flag that is not set and keeps those above it advances the number, by at least `2 ^ w` if the
first `w` flags are set again (`value_advance`). So a sequence of such changes comes to an end,
where all flags are set, after at most `2 ^ (n - w)` of them (`exists_full`).
-/

namespace Odometer

/-- The number whose binary digits are the flags below `n`. -/
def value (f : ℕ → Bool) : ℕ → ℕ
  | 0 => 0
  | n + 1 => value f n + if f n then 2 ^ n else 0

variable {f g : ℕ → Bool} {n s w : ℕ}

theorem value_lt (f : ℕ → Bool) (n : ℕ) : value f n < 2 ^ n := by
  induction n with
  | zero => exact Nat.one_pos
  | succ n ih =>
    rw [value, Nat.pow_succ]
    split_ifs <;> omega

/-- The first `w` flags are set. -/
theorem two_pow_le_value (hw : ∀ i < w, f i) (hwn : w ≤ n) : 2 ^ w ≤ value f n + 1 := by
  induction n, hwn using Nat.le_induction with
  | base =>
    induction w with
    | zero => exact le_rfl
    | succ w ih =>
      have := ih fun i hi => hw i (by omega)
      rw [value, if_pos (hw w w.lt_succ_self), Nat.pow_succ]
      omega
  | succ n _ ih =>
    rw [value]
    omega

/-- Flag `s` is the first that is not set. Setting it, with those above kept and the first `w` set
again, advances the number. -/
theorem value_advance (hsn : s < n) (hf : f s = false) (hg : g s = true) (hw : ∀ i < w, g i)
    (hws : w ≤ s) (habove : ∀ i, s < i → g i = f i) : value f n + 2 ^ w ≤ value g n := by
  induction n, hsn using Nat.le_induction with
  | base =>
    have hlt := value_lt f s
    have hle := two_pow_le_value hw hws
    rw [value, value, hf, hg, if_pos rfl, if_neg Bool.false_ne_true]
    omega
  | succ n hn ih =>
    rw [value, value, habove n (by omega)]
    omega

/-- A sequence of flags that advances by `2 ^ w`, as long as one of the first `n` is not set, comes
to where all of them are set. -/
theorem exists_full {F : ℕ → ℕ → Bool} (hwn : w ≤ n)
    (h : ∀ i, (∀ j ≤ i, ∃ s < n, F j s = false) → value (F i) n + 2 ^ w ≤ value (F (i + 1)) n) :
    ∃ i ≤ 2 ^ (n - w), ∀ s < n, F i s = true := by
  by_contra hnot
  have hfree : ∀ i ≤ 2 ^ (n - w), ∃ s < n, F i s = false := by
    intro i hi
    by_contra hfull
    refine hnot ⟨i, hi, fun s hs => ?_⟩
    by_contra hF
    exact hfull ⟨s, hs, eq_false_of_ne_true hF⟩
  have hgrow : ∀ i ≤ 2 ^ (n - w), 2 ^ w * i ≤ value (F i) n := by
    intro i
    induction i with
    | zero => exact fun _ => Nat.zero_le _
    | succ i ih =>
      intro hi
      have hle := ih (by omega)
      have hadv := h i fun j hj => hfree j (by omega)
      rw [Nat.mul_succ]
      omega
  have hpow : 2 ^ w * 2 ^ (n - w) = 2 ^ n := by rw [← Nat.pow_add, Nat.add_sub_cancel' hwn]
  have hlast := hgrow _ le_rfl
  rw [hpow] at hlast
  exact absurd (value_lt _ n) (not_lt.mpr hlast)

end Odometer
