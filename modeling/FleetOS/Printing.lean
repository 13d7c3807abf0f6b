import Mathlib.Data.Nat.Digits.Defs
import Mathlib.Tactic

/-!
# Printing into a buffer

Text is put together with `pos += snprintf(buf + pos, bufsize - pos, ..)`, one call after the
other. A call stores one character less than its size argument, the cursor moves by the length
of the whole text, and the size argument is unsigned : once the cursor is past the end of the
buffer, the next call is told that there is room for almost `2 ^ 64` characters.

`complete_printAll` : if all the texts together are shorter than the buffer, no call is cut, no
size argument wraps, and the buffer holds all of them. `within_append_iff` : no cursor is past the
end exactly when all texts but the last fit. `length_decimal_le`, `length_separated_le` and
`length_separated` are about the texts.
-/

namespace Printing

/-- One call : where it writes, its size argument and the text it formats. -/
structure Call where
  pos : ℕ
  size : ℕ
  text : List Char

/-- The string in a buffer, the cursor, and the calls so far. -/
structure Buffer where
  text : List Char
  pos : ℕ
  calls : List Call

/-- `bufsize - pos` as a `size_t`. -/
def sizeArg (bufsize pos : ℕ) : ℕ := (((bufsize : ℤ) - pos) % 2 ^ 64).toNat

/-- `pos += snprintf(buf + pos, bufsize - pos, ..)` for the formatted text `s`. What a call
writes past the end of the buffer is not part of the string. -/
def print (bufsize : ℕ) (b : Buffer) (s : List Char) : Buffer where
  text :=
    if b.pos < bufsize then b.text.take b.pos ++ s.take (sizeArg bufsize b.pos - 1) else b.text
  pos := b.pos + s.length
  calls := b.calls ++ [⟨b.pos, sizeArg bufsize b.pos, s⟩]

def printAll (bufsize : ℕ) (texts : List (List Char)) : Buffer :=
  texts.foldl (print bufsize) ⟨[], 0, []⟩

/-- The texts are in the buffer, the cursor is behind them and inside the buffer, no size
argument has wrapped and no text was cut. -/
structure Complete (bufsize : ℕ) (texts : List (List Char)) (b : Buffer) : Prop where
  text : b.text = texts.flatten
  pos : b.pos = texts.flatten.length
  pos_lt : b.pos < bufsize
  size : ∀ c ∈ b.calls, c.pos < bufsize ∧ c.size = bufsize - c.pos
  fits : ∀ c ∈ b.calls, c.text.length < c.size

variable {bufsize : ℕ} {texts done : List (List Char)} {b : Buffer} {s : List Char}

theorem sizeArg_eq (hbuf : bufsize < 2 ^ 64) {pos : ℕ} (hpos : pos ≤ bufsize) :
    sizeArg bufsize pos = bufsize - pos := by
  unfold sizeArg
  omega

theorem Complete.print (h : Complete bufsize done b) (hbuf : bufsize < 2 ^ 64)
    (hs : b.pos + s.length < bufsize) : Complete bufsize (done ++ [s]) (print bufsize b s) := by
  have hlen : b.text.length = b.pos := by rw [h.text, h.pos]
  have hsize := sizeArg_eq hbuf h.pos_lt.le
  refine ⟨?_, ?_, hs, fun c hc => ?_, fun c hc => ?_⟩
  · have hcut : s.take (sizeArg bufsize b.pos - 1) = s := List.take_of_length_le (by omega)
    simp only [Printing.print, if_pos h.pos_lt, hcut]
    rw [List.take_of_length_le hlen.le, h.text]
    simp
  · simp only [Printing.print, h.pos]
    simp
  · rcases List.mem_append.mp hc with hc | hc
    · exact h.size c hc
    · rw [List.mem_singleton.mp hc]
      exact ⟨h.pos_lt, hsize⟩
  · rcases List.mem_append.mp hc with hc | hc
    · exact h.fits c hc
    · rw [List.mem_singleton.mp hc]
      dsimp only
      omega

theorem Complete.foldl (h : Complete bufsize done b) (hbuf : bufsize < 2 ^ 64)
    (hfit : b.pos + texts.flatten.length < bufsize) :
    Complete bufsize (done ++ texts) (texts.foldl (Printing.print bufsize) b) := by
  induction texts generalizing b done with
  | nil => simpa using h
  | cons s texts ih =>
    rw [List.flatten_cons, List.length_append] at hfit
    have hs : b.pos + s.length < bufsize := by omega
    have hnext := ih (h.print hbuf hs) (by
      simp only [Printing.print]
      omega)
    rwa [List.append_assoc, List.singleton_append] at hnext

theorem complete_printAll (hbuf : bufsize < 2 ^ 64) (hfit : texts.flatten.length < bufsize) :
    Complete bufsize texts (printAll bufsize texts) := by
  have hempty : Complete bufsize [] ⟨[], 0, []⟩ :=
    ⟨rfl, rfl, by dsimp only; omega, fun c hc => absurd hc List.not_mem_nil,
      fun c hc => absurd hc List.not_mem_nil⟩
  exact hempty.foldl hbuf (by simpa using hfit)

/-! ## Cursors -/

/-- No call is made with a cursor past the end of the buffer, so no size argument has wrapped. -/
def Within (bufsize : ℕ) (b : Buffer) : Prop :=
  ∀ c ∈ b.calls, c.pos ≤ bufsize ∧ c.size = bufsize - c.pos

theorem within_print_iff (hbuf : bufsize < 2 ^ 64) :
    Within bufsize (print bufsize b s) ↔ Within bufsize b ∧ b.pos ≤ bufsize := by
  simp only [Within, Printing.print, List.forall_mem_append, List.forall_mem_singleton]
  exact and_congr_right' ⟨fun h => h.1, fun h => ⟨h, sizeArg_eq hbuf h⟩⟩

theorem within_foldl_iff (hbuf : bufsize < 2 ^ 64) (last : List Char) :
    Within bufsize ((texts ++ [last]).foldl (Printing.print bufsize) b) ↔
      Within bufsize b ∧ b.pos + texts.flatten.length ≤ bufsize := by
  induction texts generalizing b with
  | nil => exact within_print_iff hbuf
  | cons s texts ih =>
    rw [List.cons_append, List.foldl_cons, ih, within_print_iff hbuf, List.flatten_cons,
      List.length_append]
    have hpos : (Printing.print bufsize b s).pos = b.pos + s.length := rfl
    rw [hpos, and_assoc]
    exact and_congr_right' ⟨fun h => by omega, fun h => by omega⟩

theorem within_append_iff (hbuf : bufsize < 2 ^ 64) (last : List Char) :
    Within bufsize (printAll bufsize (texts ++ [last])) ↔ texts.flatten.length ≤ bufsize := by
  rw [printAll, within_foldl_iff hbuf, Nat.zero_add, and_iff_right]
  exact fun c hc => absurd hc List.not_mem_nil

/-- One call stores what there is room for. -/
theorem length_printAll_singleton (h0 : 0 < bufsize) (hbuf : bufsize < 2 ^ 64) :
    (printAll bufsize [s]).text.length = min s.length (bufsize - 1) := by
  simp only [printAll, List.foldl_cons, List.foldl_nil, Printing.print, h0, if_true, List.take_nil,
    List.nil_append, List.length_take, sizeArg_eq hbuf (Nat.zero_le _), Nat.sub_zero]
  exact min_comm _ _

/-! ## Lengths -/

/-- `%d`. -/
@[irreducible] def decimal (v : ℤ) : List Char := (toString v).toList

/-- `k` digits and a sign. -/
theorem length_decimal_le {v : ℤ} {k : ℕ} (hk : 0 < k) (hv : v.natAbs < 10 ^ k) :
    (decimal v).length ≤ k + 1 := by
  unfold decimal
  rw [String.length_toList]
  cases v with
  | ofNat n => exact (Nat.repr_length n k hk hv).trans k.le_succ
  | negSucc n =>
    have hlen := Nat.repr_length (n + 1) k hk (by simpa using hv)
    have hrepr : toString (Int.negSucc n) = "-" ++ (n + 1).repr := rfl
    rw [hrepr, String.length_append]
    have hsign : "-".length = 1 := rfl
    omega

theorem length_decimal_nonneg {v : ℤ} {k : ℕ} (hk : 0 < k) (h0 : 0 ≤ v) (hv : v < 10 ^ k) :
    (decimal v).length ≤ k := by
  unfold decimal
  rw [String.length_toList]
  lift v to ℕ using h0
  exact Nat.repr_length v k hk (by exact_mod_cast hv)

/-- The texts of a loop that prints a comma in front of every item but the first. -/
def separated : List (List Char) → List (List Char)
  | [] => []
  | s :: rest => s :: rest.flatMap fun t => [[','], t]

theorem length_separated (items : List (List Char)) :
    (separated items).flatten.length = (items.map List.length).sum + (items.length - 1) := by
  cases items with
  | nil => rfl
  | cons s rest =>
    have hrest : ∀ l : List (List Char), (l.flatMap fun t => [[','], t]).flatten.length =
        (l.map List.length).sum + l.length := by
      intro l
      induction l with
      | nil => rfl
      | cons t l ih =>
        simp only [List.flatMap_cons, List.flatten_append, List.length_append, List.length_cons,
          List.flatten_cons, List.flatten_nil, List.length_nil, List.map_cons, List.sum_cons, ih]
        omega
    simp only [separated, List.flatten_cons, List.length_append, List.map_cons, List.sum_cons,
      List.length_cons, hrest]
    omega

theorem length_separated_le {m : ℕ} {items : List (List Char)} (h : ∀ s ∈ items, s.length ≤ m) :
    (separated items).flatten.length ≤ items.length * (m + 1) := by
  cases items with
  | nil => simp [separated]
  | cons s rest =>
    have hrest : ∀ l : List (List Char), (∀ t ∈ l, t.length ≤ m) →
        (l.flatMap fun t => [[','], t]).flatten.length ≤ l.length * (m + 1) := by
      intro l hl
      induction l with
      | nil => simp
      | cons t l ih =>
        have ht := hl t List.mem_cons_self
        have hl := ih fun u hu => hl u (List.mem_cons_of_mem t hu)
        simp only [List.flatMap_cons, List.flatten_append, List.length_append, List.length_cons,
          List.flatten_cons, List.flatten_nil, List.length_nil, Nat.add_mul, Nat.one_mul] at hl ⊢
        omega
    have hs := h s List.mem_cons_self
    have hl := hrest rest fun t ht => h t (List.mem_cons_of_mem s ht)
    simp only [separated, List.flatten_cons, List.length_append, List.length_cons, Nat.add_mul,
      Nat.one_mul]
    omega

/-- A list of at most `n` items of at most `m` characters, between a head and a tail. -/
theorem length_enclosed_le {head tail : List Char} {items : List (List Char)} {a n m : ℕ}
    (hhead : head.length ≤ a) (hitems : ∀ s ∈ items, s.length ≤ m) (hn : items.length ≤ n) :
    ([head] ++ separated items ++ [tail]).flatten.length ≤ a + n * (m + 1) + tail.length := by
  have hlist := (length_separated_le hitems).trans (Nat.mul_le_mul_right (m + 1) hn)
  simp only [List.flatten_append, List.flatten_singleton, List.length_append]
  omega

end Printing
