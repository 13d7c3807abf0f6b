import Mathlib.Data.List.Basic
import Mathlib.Tactic

/-!
# Ranks

How long a run of calls can go on before something happens. Some of the calls are ticks, and a
rank bounds the ticks that are left : no call raises it, and a tick lowers it (`Ranking.reaches`).
The rank of an element that waits in a queue is made from its index, which grows neither by what
is pushed behind it nor by what is taken out in front of it (`NotBack`).
-/

namespace Ranking

variable {σ κ : Type*} {step : σ → κ → σ} {tick : κ → Bool} (Inv : σ → List κ → Prop)
  (Done : σ → Prop) (rank : σ → ℕ)

/-- `Inv s calls` says what holds in `s` before the calls that are left. -/
theorem reaches (hpos : ∀ s calls, Inv s calls → 0 < rank s)
    (hstep : ∀ s call calls, Inv s (call :: calls) → Done (step s call) ∨
      Inv (step s call) calls ∧ rank (step s call) + (if tick call then 1 else 0) ≤ rank s)
    {calls : List κ} {s : σ} (h : Inv s calls) (hticks : rank s ≤ calls.countP tick) :
    ∃ pre, pre <+: calls ∧ Done (pre.foldl step s) := by
  induction calls generalizing s with
  | nil =>
    have := hpos s [] h
    rw [List.countP_nil] at hticks
    omega
  | cons call calls ih =>
    rcases hstep s call calls h with hdone | ⟨hinv, hle⟩
    · exact ⟨[call], List.prefix_append [call] calls, hdone⟩
    · rw [List.countP_cons] at hticks
      obtain ⟨pre, hpre, hdone⟩ := ih hinv (by omega)
      exact ⟨call :: pre, List.prefix_cons_inj call |>.mpr hpre, hdone⟩

/-- What holds before the calls holds after each part of them that does not lead to `Done`. -/
theorem keeps
    (hstep : ∀ s call calls, Inv s (call :: calls) → Done (step s call) ∨ Inv (step s call) calls) :
    ∀ (pre : List κ) {rest : List κ} {s : σ}, Inv s (pre ++ rest) →
      (∀ p, p <+: pre → p ≠ [] → ¬Done (p.foldl step s)) → Inv (pre.foldl step s) rest
  | [], _, _, h, _ => h
  | call :: pre, rest, s, h, hnot => by
    have hinv := (hstep s call (pre ++ rest) h).resolve_left
      (hnot [call] (List.prefix_append [call] pre) (List.cons_ne_nil _ _))
    refine keeps hstep pre hinv fun p hp hne => ?_
    exact hnot (call :: p) ((List.prefix_cons_inj call).mpr hp) (List.cons_ne_nil _ _)

variable {α : Type*} [DecidableEq α]

/-- `t` is in `l'`, and not further back than in `l`. -/
structure NotBack (t : α) (l l' : List α) : Prop where
  mem : t ∈ l'
  idxOf_le : l'.idxOf t ≤ l.idxOf t

variable {t u : α} {l l' l'' : List α}

theorem NotBack.refl (h : t ∈ l) : NotBack t l l := ⟨h, le_rfl⟩

theorem NotBack.trans (h : NotBack t l l') (h' : NotBack t l' l'') : NotBack t l l'' :=
  ⟨h'.mem, h'.idxOf_le.trans h.idxOf_le⟩

theorem notBack_append (h : t ∈ l) (back : List α) : NotBack t l (l ++ back) :=
  ⟨List.mem_append_left back h, (List.idxOf_append_of_mem h).le⟩

theorem idxOf_erase_le (htu : t ≠ u) : ∀ l : List α, (l.erase u).idxOf t ≤ l.idxOf t
  | [] => le_rfl
  | a :: l => by
    by_cases hau : a = u
    · rw [hau, List.erase_cons_head, List.idxOf_cons_ne _ htu.symm]
      exact Nat.le_succ _
    · rw [List.erase_cons_tail (by simpa using hau)]
      by_cases hat : a = t
      · rw [hat, List.idxOf_cons_self]
        exact Nat.zero_le _
      · rw [List.idxOf_cons_ne _ hat, List.idxOf_cons_ne _ hat]
        exact Nat.succ_le_succ (idxOf_erase_le htu l)

theorem notBack_erase (h : t ∈ l) (htu : t ≠ u) : NotBack t l (l.erase u) :=
  ⟨(List.mem_erase_of_ne htu).mpr h, idxOf_erase_le htu l⟩

end Ranking
