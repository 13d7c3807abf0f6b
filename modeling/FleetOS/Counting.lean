import Mathlib.Algebra.BigOperators.Group.List.Basic
import Mathlib.Algebra.Order.BigOperators.Group.List
import Mathlib.Data.Int.Basic
import Mathlib.Tactic

/-!
# Counts and sums over a table

A table is a function on the entries of a list without repetitions. Writing one entry changes a
sum over the table by the difference at that entry (`sum_map_change`) and a count by the entry
itself (`countP_update`). In a table of numbers that are not negative two entries are together
at most the sum (`add_le_sum_map`).
-/

namespace Counting

variable {α : Type*} [DecidableEq α]

/-- Two tables that agree off `a`. -/
theorem sum_map_change {M : Type*} [AddCommMonoid M] {l : List α} (hnd : l.Nodup) {a : α}
    (ha : a ∈ l) {f g : α → M} (h : ∀ x ∈ l, x ≠ a → g x = f x) :
    (l.map g).sum + f a = (l.map f).sum + g a := by
  have hrest : (l.erase a).map g = (l.erase a).map f := by
    refine List.map_congr_left fun x hx => h x (List.mem_of_mem_erase hx) ?_
    rintro rfl
    exact hnd.not_mem_erase hx
  rw [← List.sum_map_erase f ha, ← List.sum_map_erase g ha, hrest, add_right_comm, add_comm (g a),
    add_right_comm]

theorem add_le_sum_map {l : List α} {a b : α} (ha : a ∈ l) (hb : b ∈ l) (hab : a ≠ b) {f : α → ℤ}
    (h0 : ∀ x ∈ l, 0 ≤ f x) : f a + f b ≤ (l.map f).sum := by
  have hb' : b ∈ l.erase a := (List.mem_erase_of_ne hab.symm).mpr hb
  rw [← List.sum_map_erase f ha, ← List.sum_map_erase f hb']
  have hrest : 0 ≤ (((l.erase a).erase b).map f).sum := by
    refine List.sum_nonneg fun v hv => ?_
    obtain ⟨x, hx, rfl⟩ := List.mem_map.mp hv
    exact h0 x (List.mem_of_mem_erase (List.mem_of_mem_erase hx))
  omega

theorem countP_update {β : Type*} (P : β → Bool) (g : α → β) {a : α} (v : β) :
    ∀ {l : List α}, l.Nodup → a ∈ l →
      l.countP (fun i => P (Function.update g a v i)) + (if P (g a) then 1 else 0) =
        l.countP (fun i => P (g i)) + (if P v then 1 else 0)
  | [], _, ha => absurd ha List.not_mem_nil
  | b :: l, hnd, ha => by
    obtain ⟨hb, hnd⟩ := List.nodup_cons.mp hnd
    rw [List.countP_cons, List.countP_cons]
    by_cases hab : a = b
    · subst hab
      have hrest : l.countP (fun i => P (Function.update g a v i)) = l.countP fun i => P (g i) := by
        refine List.countP_congr fun i hi => ?_
        have hia : i ≠ a := fun he => hb (he ▸ hi)
        rw [Function.update_of_ne hia]
      rw [hrest, Function.update_self]
      omega
    · have ih := countP_update P g v hnd ((List.mem_cons.mp ha).resolve_left hab)
      rw [Function.update_of_ne (Ne.symm hab)]
      omega

end Counting
