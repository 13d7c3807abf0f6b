import Mathlib.Data.Finset.Card
import Mathlib.Data.Finset.Lattice.Basic
import Mathlib.Logic.Relation
import Mathlib.Order.WellFounded
import Mathlib.Tactic

/-!
# Depth first search for a cycle

A directed graph is given by its successor lists. `search` marks a node when it enters it and
keeps it on the stack until all its successors are done; it stops with `true` at the first
edge to a node that is still on the stack. What it leaves behind then is the stack.

A marked node off the stack is `black`. The black nodes are closed under successors and none
of them lies on a cycle (`Settled`), and every stack node leads to the current one. Hence a
search that stops with `true` has found a node on a cycle that the whole stack leads to
(`search_found`), and one that ends with `false` has settled its root
(`search_eq_true_iff`). The fuel runs out only if more nodes are entered than there are
unmarked ones.
-/

namespace CycleSearch

open Relation

variable {V : Type*}

/-! ## Cycles -/

/-- There is an edge. -/
def Edge (succ : V → List V) (p q : V) : Prop := q ∈ succ p

/-- A node on a cycle. -/
def OnCycle (succ : V → List V) (p : V) : Prop := TransGen (Edge succ) p p

/-- A node that leads to a cycle. -/
def Trapped (succ : V → List V) (p : V) : Prop :=
  ∃ c, OnCycle succ c ∧ ReflTransGen (Edge succ) p c

/-- Nodes that are done with : their successors are, and none is on a cycle. -/
structure Settled (succ : V → List V) (s : Finset V) : Prop where
  closed : ∀ b ∈ s, ∀ q ∈ succ b, q ∈ s
  acyclic : ∀ b ∈ s, ¬OnCycle succ b

theorem Settled.reach {succ : V → List V} {s : Finset V} (h : Settled succ s) {b q : V}
    (hb : b ∈ s) (hq : ReflTransGen (Edge succ) b q) : q ∈ s := by
  induction hq with
  | refl => exact hb
  | tail _ he ih => exact h.closed _ ih _ he

theorem Settled.not_trapped {succ : V → List V} {s : Finset V} (h : Settled succ s) {b : V}
    (hb : b ∈ s) : ¬Trapped succ b := by
  rintro ⟨c, hc, hbc⟩
  exact h.acyclic c (h.reach hb hbc) hc

theorem settled_empty (succ : V → List V) : Settled succ ∅ :=
  ⟨fun _ hb => absurd hb (Finset.notMem_empty _), fun _ hb => absurd hb (Finset.notMem_empty _)⟩

/-- In a finite set of nodes each of which has a successor in the set, some node is on a
cycle. -/
theorem exists_onCycle_of_knot {succ : V → List V} {s : Finset V} (hne : s.Nonempty)
    (hknot : ∀ p ∈ s, ∃ q ∈ s, Edge succ p q) : ∃ c ∈ s, OnCycle succ c := by
  by_contra hno
  push Not at hno
  let r : s → s → Prop := fun q p => TransGen (Edge succ) p.1 q.1
  have : IsTrans s r := ⟨fun _ _ _ h h' => h'.trans h⟩
  have : Std.Irrefl r := ⟨fun c hc => hno c.1 c.2 hc⟩
  obtain ⟨p, -, hmin⟩ :=
    (Finite.wellFounded_of_trans_of_irrefl r).has_min Set.univ ⟨⟨_, hne.choose_spec⟩, trivial⟩
  obtain ⟨q, hq, he⟩ := hknot p.1 p.2
  exact hmin ⟨q, hq⟩ trivial (.single he)

/-! ## The search -/

variable [DecidableEq V]

/-- The marks of a search : the nodes entered so far, and those of them on the stack. -/
structure Marks (V : Type*) where
  visited : Finset V
  inStack : Finset V

def Marks.enter (m : Marks V) (p : V) : Marks V := ⟨insert p m.visited, insert p m.inStack⟩

def Marks.leave (m : Marks V) (p : V) : Marks V := { m with inStack := m.inStack.erase p }

def Marks.black (m : Marks V) : Finset V := m.visited \ m.inStack

def Marks.empty : Marks V := ⟨∅, ∅⟩

/-- Go through the successors of a node, entering the unmarked ones with `enter`. -/
def scan (enter : V → Marks V → Bool × Marks V) : List V → Marks V → Bool × Marks V
  | [], m => (false, m)
  | q :: qs, m =>
    if q ∉ m.visited then
      match enter q m with
      | (true, m) => (true, m)
      | (false, m) => scan enter qs m
    else if q ∈ m.inStack then (true, m)
    else scan enter qs m

/-- Enter a node. -/
def search (succ : V → List V) : ℕ → V → Marks V → Bool × Marks V
  | 0, _, m => (false, m)
  | fuel + 1, p, m =>
    match scan (search succ fuel) (succ p) (m.enter p) with
    | (true, m) => (true, m)
    | (false, m) => (false, m.leave p)

/-- A node outside a settled set whose successors are all inside may join it. -/
theorem Settled.insert {succ : V → List V} {s : Finset V} (h : Settled succ s) {p : V}
    (hp : p ∉ s) (hsucc : ∀ q ∈ succ p, q ∈ s) : Settled succ (insert p s) := by
  refine ⟨fun b hb q hq => ?_, fun b hb hcyc => ?_⟩
  · rcases Finset.mem_insert.mp hb with rfl | hb
    · exact Finset.mem_insert_of_mem (hsucc q hq)
    · exact Finset.mem_insert_of_mem (h.closed b hb q hq)
  · rcases Finset.mem_insert.mp hb with rfl | hb
    · obtain ⟨q, hq, hback⟩ := TransGen.head'_iff.mp hcyc
      exact hp (h.reach (hsucc q hq) hback)
    · exact h.acyclic b hb hcyc

/-! ## The invariant of the search -/

/-- The marks while node `p` is being worked on. -/
structure Inv (succ : V → List V) (p : V) (m : Marks V) : Prop where
  stack_sub : m.inStack ⊆ m.visited
  stack_reach : ∀ s ∈ m.inStack, ReflTransGen (Edge succ) s p
  settled : Settled succ m.black

/-- Stopped at a cycle : the whole stack leads to it. -/
def Found (succ : V → List V) (m : Marks V) : Prop :=
  ∃ c, OnCycle succ c ∧ ∀ s ∈ m.inStack, ReflTransGen (Edge succ) s c

/-- From `m` to `m'` more nodes were settled and the stack is the same. -/
structure Advance (succ : V → List V) (m m' : Marks V) : Prop where
  inStack : m'.inStack = m.inStack
  visited : m.visited ⊆ m'.visited
  settled : Settled succ m'.black

theorem Advance.inv {succ : V → List V} {p : V} {m m' : Marks V} (h : Advance succ m m')
    (hi : Inv succ p m) : Inv succ p m' :=
  ⟨h.inStack ▸ hi.stack_sub.trans h.visited, h.inStack ▸ hi.stack_reach, h.settled⟩

theorem Advance.trans {succ : V → List V} {m m' m'' : Marks V} (h : Advance succ m m')
    (h' : Advance succ m' m'') : Advance succ m m'' :=
  ⟨h'.inStack.trans h.inStack, h.visited.trans h'.visited, h'.settled⟩

theorem Inv.advance {succ : V → List V} {p : V} {m : Marks V} (h : Inv succ p m) :
    Advance succ m m :=
  ⟨rfl, Finset.Subset.refl _, h.settled⟩

theorem Advance.black {succ : V → List V} {m m' : Marks V} (h : Advance succ m m') :
    m.black ⊆ m'.black := by
  unfold Marks.black
  rw [h.inStack]
  exact Finset.sdiff_subset_sdiff h.visited (Finset.Subset.refl _)

@[simp] theorem black_enter (m : Marks V) {p : V} (hp : p ∉ m.visited) :
    (m.enter p).black = m.black := by
  ext q
  simp only [Marks.black, Marks.enter, Finset.mem_sdiff, Finset.mem_insert, not_or]
  constructor
  · rintro ⟨hq, hqp, hqs⟩
    exact ⟨hq.resolve_left hqp, hqs⟩
  · rintro ⟨hq, hqs⟩
    exact ⟨Or.inr hq, fun he => hp (he ▸ hq), hqs⟩

/-- Entering an unmarked successor of the current node. -/
theorem Inv.enter {succ : V → List V} {p q : V} {m : Marks V} (h : Inv succ p m)
    (hq : q ∈ succ p) (hnew : q ∉ m.visited) : Inv succ q (m.enter q) := by
  refine ⟨Finset.insert_subset_insert q h.stack_sub, fun s hs => ?_, ?_⟩
  · rcases Finset.mem_insert.mp hs with rfl | hs
    · exact .refl
    · exact (h.stack_reach s hs).tail hq
  · rw [black_enter m hnew]
    exact h.settled

/-- Leaving a node whose successors are all settled. -/
theorem Advance.leave {succ : V → List V} {p : V} {m m' : Marks V} (hnew : p ∉ m.visited)
    (hsub : m.inStack ⊆ m.visited) (h : Advance succ (m.enter p) m')
    (hsucc : ∀ q ∈ succ p, q ∈ m'.black) :
    Advance succ m (m'.leave p) ∧ p ∈ (m'.leave p).black := by
  have hstack : p ∈ m'.inStack := by
    rw [h.inStack]
    exact Finset.mem_insert_self p _
  have hvis : p ∈ m'.visited := h.visited (Finset.mem_insert_self p _)
  have hblack : (m'.leave p).black = insert p m'.black := by
    ext q
    simp only [Marks.black, Marks.leave, Finset.mem_sdiff, Finset.mem_erase, Finset.mem_insert]
    by_cases hqp : q = p
    · subst hqp
      simp [hvis]
    · simp [hqp]
  refine ⟨⟨?_, fun q hq => h.visited (Finset.mem_insert_of_mem hq), ?_⟩, ?_⟩
  · have hp : p ∉ m.inStack := fun hs => hnew (hsub hs)
    change m'.inStack.erase p = m.inStack
    rw [h.inStack]
    exact Finset.erase_insert hp
  · rw [hblack]
    exact h.settled.insert (fun hb => (Finset.mem_sdiff.mp hb).2 hstack) hsucc
  · rw [hblack]
    exact Finset.mem_insert_self p _

/-! ## The two outcomes -/

/-- The specification of entering `q` from marks `m`. -/
def Enters (succ : V → List V) (q : V) (m : Marks V) (r : Bool × Marks V) : Prop :=
  (r.1 = true ∧ Found succ r.2 ∧ insert q m.inStack ⊆ r.2.inStack ∧ r.2.inStack ⊆ r.2.visited) ∨
    (r.1 = false ∧ Advance succ m r.2 ∧ q ∈ r.2.black)

theorem scan_spec {succ : V → List V} {p : V} (enter : V → Marks V → Bool × Marks V) :
    ∀ (qs : List V) (m : Marks V), Inv succ p m → p ∈ m.inStack → (∀ q ∈ qs, q ∈ succ p) →
      (∀ q ∈ qs, ∀ m', Inv succ p m' → p ∈ m'.inStack → m.visited ⊆ m'.visited → q ∉ m'.visited →
        Enters succ q m' (enter q m')) →
      ((scan enter qs m).1 = true ∧ Found succ (scan enter qs m).2 ∧
        m.inStack ⊆ (scan enter qs m).2.inStack ∧
        (scan enter qs m).2.inStack ⊆ (scan enter qs m).2.visited) ∨
      ((scan enter qs m).1 = false ∧ Advance succ m (scan enter qs m).2 ∧
        ∀ q ∈ qs, q ∈ (scan enter qs m).2.black)
  | [], m, hi, _, _, _ => Or.inr ⟨rfl, hi.advance, fun _ hq => absurd hq List.not_mem_nil⟩
  | q :: qs, m, hi, hp, hsucc, henter => by
    have hq : q ∈ succ p := hsucc q List.mem_cons_self
    have hrest : ∀ q' ∈ qs, q' ∈ succ p := fun q' hq' => hsucc q' (List.mem_cons_of_mem q hq')
    by_cases hnew : q ∉ m.visited
    · rcases henter q List.mem_cons_self m hi hp (Finset.Subset.refl _) hnew with
        ⟨hr, hfound, hstack, hsub⟩ | ⟨hr, hadv, hblack⟩
      · have he : scan enter (q :: qs) m = enter q m := by
          rw [scan, if_pos hnew]
          generalize enter q m = r at hr
          obtain ⟨b, m'⟩ := r
          subst hr
          rfl
        rw [he]
        exact Or.inl ⟨hr, hfound, (Finset.subset_insert q _).trans hstack, hsub⟩
      · have he : scan enter (q :: qs) m = scan enter qs (enter q m).2 := by
          rw [scan, if_pos hnew]
          generalize enter q m = r at hr
          obtain ⟨b, m'⟩ := r
          subst hr
          rfl
        rw [he]
        have ih := scan_spec (p := p) enter qs (enter q m).2 (hadv.inv hi) (hadv.inStack ▸ hp) hrest
          fun q' hq' m' hi' hp' hv hn =>
            henter q' (List.mem_cons_of_mem q hq') m' hi' hp' (hadv.visited.trans hv) hn
        rcases ih with ⟨hr', hfound, hstack, hsub⟩ | ⟨hr', hadv', hblack'⟩
        · exact Or.inl ⟨hr', hfound, hadv.inStack ▸ hstack, hsub⟩
        · refine Or.inr ⟨hr', hadv.trans hadv', fun q' hq' => ?_⟩
          rcases List.mem_cons.mp hq' with rfl | hq'
          · exact hadv'.black hblack
          · exact hblack' q' hq'
    · have hvis : q ∈ m.visited := not_not.mp hnew
      by_cases hstack : q ∈ m.inStack
      · -- the edge back to a stack node closes a cycle through it
        have he : scan enter (q :: qs) m = (true, m) := by
          rw [scan, if_neg hnew, if_pos hstack]
        rw [he]
        refine Or.inl ⟨rfl, ⟨p, ?_, hi.stack_reach⟩, Finset.Subset.refl _, hi.stack_sub⟩
        exact TransGen.head' hq (hi.stack_reach q hstack)
      · have he : scan enter (q :: qs) m = scan enter qs m := by
          rw [scan, if_neg hnew, if_neg hstack]
        rw [he]
        have ih := scan_spec (p := p) enter qs m hi hp hrest fun q' hq' m' hi' hp' hv hn =>
          henter q' (List.mem_cons_of_mem q hq') m' hi' hp' hv hn
        refine ih.imp_right fun ⟨hr, hadv, hblack⟩ => ⟨hr, hadv, fun q' hq' => ?_⟩
        rcases List.mem_cons.mp hq' with rfl | hq'
        · exact hadv.black (Finset.mem_sdiff.mpr ⟨hvis, hstack⟩)
        · exact hblack q' hq'

/-- Entering an unmarked node, with fuel for the unmarked nodes of a finite graph. -/
theorem search_enters {succ : V → List V} {nodes : Finset V}
    (hnodes : ∀ p ∈ nodes, ∀ q ∈ succ p, q ∈ nodes) :
    ∀ (fuel : ℕ) (p : V) (m : Marks V), p ∈ nodes → p ∉ m.visited → (nodes \ m.visited).card ≤ fuel →
      Inv succ p (m.enter p) → m.inStack ⊆ m.visited → Enters succ p m (search succ fuel p m)
  | 0, p, m, hp, hnew, hfuel, _, _ => by
    have hcard := Finset.card_pos.mpr ⟨p, Finset.mem_sdiff.mpr ⟨hp, hnew⟩⟩
    omega
  | fuel + 1, p, m, hp, hnew, hfuel, hi, hsub => by
    have hlt : (nodes \ (m.enter p).visited).card < (nodes \ m.visited).card := by
      refine Finset.card_lt_card ⟨?_, fun h => ?_⟩
      · exact Finset.sdiff_subset_sdiff (Finset.Subset.refl _) (Finset.subset_insert p _)
      · have := Finset.mem_sdiff.mp (h (Finset.mem_sdiff.mpr ⟨hp, hnew⟩))
        exact this.2 (Finset.mem_insert_self p _)
    have hscan := scan_spec (p := p) (search succ fuel) (succ p) (m.enter p) hi
      (Finset.mem_insert_self p _) (fun _ hq => hq) fun q hq m' hi' _ hv hn => by
        refine search_enters hnodes fuel q m' (hnodes p hp q hq) hn ?_ (hi'.enter hq hn) hi'.stack_sub
        have hle := Finset.card_le_card
          (Finset.sdiff_subset_sdiff (Finset.Subset.refl nodes) hv)
        omega
    rcases hscan with ⟨hr, hfound, hstack, hsub'⟩ | ⟨hr, hadv, hblack⟩
    · have he : search succ (fuel + 1) p m =
          scan (search succ fuel) (succ p) (m.enter p) := by
        rw [search]
        generalize scan (search succ fuel) (succ p) (m.enter p) = r at hr
        obtain ⟨b, m'⟩ := r
        subst hr
        rfl
      rw [he]
      exact Or.inl ⟨hr, hfound, hstack, hsub'⟩
    · have he : search succ (fuel + 1) p m =
          (false, (scan (search succ fuel) (succ p) (m.enter p)).2.leave p) := by
        rw [search]
        generalize scan (search succ fuel) (succ p) (m.enter p) = r at hr
        obtain ⟨b, m'⟩ := r
        subst hr
        rfl
      rw [he]
      obtain ⟨hadv', hp'⟩ := hadv.leave hnew hsub hblack
      exact Or.inr ⟨rfl, hadv', hp'⟩

/-! ## A search from empty marks -/

section Root

variable {succ : V → List V} {nodes : Finset V} {fuel : ℕ} {p : V}

theorem search_empty (hnodes : ∀ p ∈ nodes, ∀ q ∈ succ p, q ∈ nodes) (hp : p ∈ nodes)
    (hfuel : nodes.card ≤ fuel) : Enters succ p Marks.empty (search succ fuel p Marks.empty) := by
  have hcard : (nodes \ (Marks.empty : Marks V).visited).card ≤ fuel :=
    (Finset.card_le_card Finset.sdiff_subset).trans hfuel
  refine search_enters hnodes fuel p .empty hp (Finset.notMem_empty p) hcard ?_
    (Finset.Subset.refl _)
  refine ⟨Finset.Subset.refl _, fun s hs => ?_, ?_⟩
  · rcases Finset.mem_insert.mp hs with rfl | hs
    · exact .refl
    · exact absurd hs (Finset.notMem_empty s)
  · rw [black_enter _ (Finset.notMem_empty p)]
    exact settled_empty succ

/-- The search from a node says whether the node leads to a cycle. -/
theorem search_eq_true_iff (hnodes : ∀ p ∈ nodes, ∀ q ∈ succ p, q ∈ nodes) (hp : p ∈ nodes)
    (hfuel : nodes.card ≤ fuel) :
    (search succ fuel p Marks.empty).1 = true ↔ Trapped succ p := by
  rcases search_empty hnodes hp hfuel with ⟨hr, ⟨c, hc, hreach⟩, hstack, -⟩ | ⟨hr, hadv, hblack⟩
  · exact iff_of_true hr ⟨c, hc, hreach p (hstack (Finset.mem_insert_self p _))⟩
  · rw [hr]
    exact iff_of_false Bool.false_ne_true (hadv.settled.not_trapped hblack)

/-- After a search that found a cycle, the root is on the stack and every node on the stack
leads to a cycle. -/
theorem search_found (hnodes : ∀ p ∈ nodes, ∀ q ∈ succ p, q ∈ nodes) (hp : p ∈ nodes)
    (hfuel : nodes.card ≤ fuel) (h : (search succ fuel p Marks.empty).1 = true) :
    p ∈ (search succ fuel p Marks.empty).2.inStack ∧
      ∀ s ∈ (search succ fuel p Marks.empty).2.inStack, Trapped succ s := by
  rcases search_empty hnodes hp hfuel with ⟨-, ⟨c, hc, hreach⟩, hstack, -⟩ | ⟨hr, -, -⟩
  · exact ⟨hstack (Finset.mem_insert_self p _), fun s hs => ⟨c, hc, hreach s hs⟩⟩
  · rw [hr] at h
    cases h

end Root

end CycleSearch
