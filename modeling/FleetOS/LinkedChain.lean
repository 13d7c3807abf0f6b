import Mathlib.Data.List.Basic
import Mathlib.Data.Finset.Card
import Mathlib.Tactic

/-!
# Linked chains

A table `next` links nodes into chains that end at the value `stop`. `Chain next stop a l` says
that the chain which starts at `a` goes through the nodes `l`. A chain is unique
(`Chain.unique`) and repeats no node (`Chain.nodup`), so one inside a finite set of nodes is no
longer than the set (`Chain.length_le`).

`nodes` reads a chain off and `lastNode` walks to its end; with fuel for the length of the chain
they give the chain and its last node. Redirecting the last node to another chain appends that
chain (`Chain.append`).
-/

namespace LinkedChain

variable {α : Type*} {next next' : α → α} {stop : α}

/-- From `a` the entries lead through `l` to `stop`. -/
def Chain (next : α → α) (stop : α) : α → List α → Prop
  | a, [] => a = stop
  | a, b :: l => a = b ∧ b ≠ stop ∧ Chain next stop (next b) l

/-- Read a chain off. -/
def nodes [DecidableEq α] (next : α → α) (stop : α) : ℕ → α → List α
  | 0, _ => []
  | fuel + 1, a => if a = stop then [] else a :: nodes next stop fuel (next a)

/-- Walk to the node whose entry is `stop`. -/
def lastNode [DecidableEq α] (next : α → α) (stop : α) : ℕ → α → α
  | 0, a => a
  | fuel + 1, a => if next a = stop then a else lastNode next stop fuel (next a)

theorem chain_nil {a : α} : Chain next stop a [] ↔ a = stop := Iff.rfl

theorem Chain.unique : ∀ {a : α} {l l' : List α}, Chain next stop a l → Chain next stop a l' → l = l'
  | _, [], [], _, _ => rfl
  | _, [], _ :: _, h, h' => absurd (h'.1.symm.trans h) h'.2.1
  | _, _ :: _, [], h, h' => absurd (h.1.symm.trans h') h.2.1
  | _, b :: l, b' :: l', h, h' => by
    obtain ⟨rfl, -, h⟩ := h
    obtain ⟨rfl, -, h'⟩ := h'
    rw [h.unique h']

/-- The chain only depends on the entries of its nodes. -/
theorem Chain.congr {a : α} {l : List α} (h : Chain next stop a l)
    (hn : ∀ x ∈ l, next' x = next x) : Chain next' stop a l := by
  induction l generalizing a with
  | nil => exact h
  | cons b l ih =>
    obtain ⟨rfl, hb, h⟩ := h
    refine ⟨rfl, hb, ?_⟩
    rw [hn a List.mem_cons_self]
    exact ih h fun x hx => hn x (List.mem_cons_of_mem a hx)

/-- From a node of the chain on, the rest of it is a chain. -/
theorem Chain.from_mem {a x : α} {l : List α} (h : Chain next stop a l) (hx : x ∈ l) :
    ∃ l', Chain next stop x l' ∧ l'.length ≤ l.length := by
  induction l generalizing a with
  | nil => exact absurd hx List.not_mem_nil
  | cons b l ih =>
    rcases List.mem_cons.mp hx with rfl | hx
    · exact ⟨x :: l, ⟨rfl, h.2⟩, le_refl _⟩
    · obtain ⟨l', hl', hle⟩ := ih h.2.2 hx
      exact ⟨l', hl', hle.trans (Nat.le_succ _)⟩

theorem Chain.nodup {a : α} {l : List α} (h : Chain next stop a l) : l.Nodup := by
  induction l generalizing a with
  | nil => exact List.nodup_nil
  | cons b l ih =>
    refine List.nodup_cons.mpr ⟨fun hb => ?_, ih h.2.2⟩
    -- the rest of the chain from `b` would be as long as the chain itself
    obtain ⟨l', hl', hle⟩ := h.2.2.from_mem hb
    have hself : Chain next stop b (b :: l) := ⟨rfl, h.2⟩
    have := hl'.unique hself
    rw [this, List.length_cons] at hle
    omega

theorem Chain.length_le {a : α} {l : List α} (h : Chain next stop a l) {s : Finset α}
    (hs : ∀ x ∈ l, x ∈ s) : l.length ≤ s.card := by
  classical
  rw [← List.toFinset_card_of_nodup h.nodup]
  exact Finset.card_le_card fun x hx => hs x (List.mem_toFinset.mp hx)

theorem Chain.nodes_eq [DecidableEq α] :
    ∀ {fuel : ℕ} {a : α} {l : List α}, Chain next stop a l → l.length ≤ fuel →
      nodes next stop fuel a = l
  | 0, _, [], _, _ => rfl
  | fuel + 1, _, [], h, _ => by rw [nodes, if_pos (chain_nil.mp h)]
  | fuel + 1, a, b :: l, h, hf => by
    obtain ⟨rfl, hb, h⟩ := h
    rw [nodes, if_neg hb, h.nodes_eq (by simpa using hf)]

theorem Chain.lastNode_eq [DecidableEq α] :
    ∀ {fuel : ℕ} {a : α} {l : List α} (hl : l ≠ []), Chain next stop a l → l.length ≤ fuel →
      lastNode next stop fuel a = l.getLast hl
  | 0, _, b :: l, _, _, hf => by simp at hf
  | _, _, [], hl, _, _ => absurd rfl hl
  | fuel + 1, a, [b], _, h, _ => by
    obtain ⟨rfl, -, h⟩ := h
    rw [lastNode, if_pos (chain_nil.mp h), List.getLast_singleton]
  | fuel + 1, a, b :: c :: l, _, h, hf => by
    obtain ⟨rfl, -, h⟩ := h
    have hne : next a ≠ stop := h.1 ▸ h.2.1
    rw [lastNode, if_neg hne, Chain.lastNode_eq (List.cons_ne_nil c l) h (by simpa using hf),
      List.getLast_cons (List.cons_ne_nil c l)]

/-- The last node redirected to the start of another chain. -/
theorem Chain.append {a b : α} {l l' : List α} (hl : l ≠ []) (h : Chain next stop a l)
    (hn : ∀ x ∈ l, x ≠ l.getLast hl → next' x = next x) (hlast : next' (l.getLast hl) = b)
    (h' : Chain next' stop b l') : Chain next' stop a (l ++ l') := by
  induction l generalizing a with
  | nil => exact absurd rfl hl
  | cons c l ih =>
    have hnd := h.nodup
    obtain ⟨rfl, hc, h⟩ := h
    refine ⟨rfl, hc, ?_⟩
    by_cases hnil : l = []
    · subst hnil
      rw [List.getLast_singleton] at hlast
      rw [hlast]
      exact h'
    · rw [List.getLast_cons hnil] at hn hlast
      have hne : a ≠ l.getLast hnil := fun he =>
        (List.nodup_cons.mp hnd).1 (he ▸ List.getLast_mem hnil)
      rw [hn a List.mem_cons_self hne]
      exact ih hnil h (fun x hx => hn x (List.mem_cons_of_mem a hx)) hlast

end LinkedChain
