import FleetOS.PageTouches
import FleetOS.Runs

/-!
# Evictions nobody hears of

`kernel_init` calls `mem_allocate_page` with a null `EvictionInfo`. When no frame is free, the call
takes the frame of a victim and has no way to tell whose page table has to be cleared;
`complete_page_faults`, which passes a record, clears it.

As long as every allocation finds a free frame, the page tables and the frame table agree
(`Mapping`). The first one that finds none leaves a frame in two page tables. The other way into
the frame of another process is an address between `-PAGE_SIZE` and `0`, which is taken for an
address on page `0` with a negative offset. Along a run these two are the only ways
(`frames_separate_iff`).
-/

namespace FleetOS

/-- A call of the memory code for one of the `n` processes, as `kernel_init` makes them. -/
inductive FrameCall (n : ℕ)
  | setTick (tick : ℤ)
  | allocate (p : Fin n) (page : ℤ)
  | access (p : Fin n) (addr : ℤ)
  | free (p : Fin n)

/-- `allocate` passes a null pointer : of the result only the memory and the PCB are left. -/
def frameCall {n : ℕ} (s : PhysicalMemory × (ℕ → PCB)) : FrameCall n → PhysicalMemory × (ℕ → PCB)
  | .setTick tick => (memSetTick s.1 tick, s.2)
  | .allocate p page =>
    let r := memAllocatePage s.1 (s.2 p) page ⟨false, 0, 0, 0⟩
    (r.mem, Function.update s.2 p r.pcb)
  | .access p addr => ((memAccess s.1 (s.2 p) addr).mem, s.2)
  | .free p =>
    ((memFreeProcess s.1 (s.2 p)).1, Function.update s.2 p (memFreeProcess s.1 (s.2 p)).2)

/-- No two entries of the page tables name the same frame. -/
def NoSharedFrame (procs : ℕ → PCB) (n : ℕ) : Prop :=
  ∀ p < n, ∀ q < n, ∀ x ∈ pageIndices, ∀ y ∈ pageIndices, (procs p).pageTable x ≠ -1 →
    (procs p).pageTable x = (procs q).pageTable y → p = q ∧ x = y

/-- An access yields no address in a frame that the frame table gives to another process. -/
def OwnFrame {n : ℕ} (s : PhysicalMemory × (ℕ → PCB)) : FrameCall n → Prop
  | .access p addr =>
    let ret := (memAccess s.1 (s.2 p) addr).ret
    0 ≤ ret → ∀ q < n, q ≠ p → s.1.frames (ret / pageSize) ≠ (s.2 q).pid
  | _ => True

def Separates {n : ℕ} (s : PhysicalMemory × (ℕ → PCB)) (call : FrameCall n) : Prop :=
  NoSharedFrame (frameCall s call).2 n ∧ OwnFrame s call

/-- A page that has to be mapped finds a free frame, and an address that the division takes to
page `0` is not below a page whose frame follows a frame of another process. -/
def Uncontended {n : ℕ} (s : PhysicalMemory × (ℕ → PCB)) : FrameCall n → Prop
  | .allocate p page =>
    page ∈ pageIndices → (s.2 p).pageTable page = -1 → ∃ f ∈ frameIndices, s.1.frames f = -1
  | .access p addr =>
    Truncated addr → 0 < (s.2 p).pageTable 0 →
      ∀ q < n, q ≠ p → s.1.frames ((s.2 p).pageTable 0 - 1) ≠ (s.2 q).pid
  | _ => True

instance {n : ℕ} (s : PhysicalMemory × (ℕ → PCB)) :
    (call : FrameCall n) → Decidable (Uncontended s call)
  | .setTick _ => inferInstanceAs (Decidable True)
  | .allocate _ _ => inferInstanceAs (Decidable (_ → _ → ∃ f ∈ _, _))
  | .access _ _ => inferInstanceAs (Decidable (_ → _ → ∀ q < n, _ → ¬_))
  | .free _ => inferInstanceAs (Decidable True)

section calls

variable {m : PhysicalMemory} {procs : ℕ → PCB} {n : ℕ}

theorem Mapping.noSharedFrame (h : Mapping m procs n) (hpids : FramePids procs n) :
    NoSharedFrame procs n := by
  intro p hp q hq x hx y hy hmapped he
  have hf := (h.entry p hp x hx).resolve_left hmapped
  obtain ⟨hown, hpage⟩ := (h.agree _ hf p hp x hx).mpr rfl
  obtain ⟨hown', hpage'⟩ := (h.agree _ hf q hq y hy).mpr he.symm
  exact ⟨hpids.distinct p hp q hq (hown.symm.trans hown'), hpage.symm.trans hpage'⟩

/-- The victim's entry for a frame that is taken stays beside the new one. -/
theorem Mapping.shared_of_full (h : Mapping m procs n) {p : ℕ} {page f : ℤ} (hp : p < n)
    (hpage : page ∈ pageIndices) (hun : (procs p).pageTable page = -1) (hf : f ∈ frameIndices)
    (hfull : m.frames f ≠ -1) : ¬NoSharedFrame (mapped procs p page f) n := by
  intro hno
  have hf0 := (mem_frameIndices.mp hf).1
  obtain ⟨q, hq, hown, hv⟩ := (h.owner f hf).resolve_left hfull
  have hqv : (procs q).pageTable (m.framePages f) = f := (h.agree f hf q hq _ hv).mp ⟨hown, rfl⟩
  have hne : ¬(q = p ∧ m.framePages f = page) := by
    rintro ⟨rfl, he⟩
    rw [he, hun] at hqv
    omega
  have hnew : (mapped procs p page f p).pageTable page = f := by
    rw [mapped_pageTable, if_pos ⟨rfl, rfl⟩]
  have hold : (mapped procs p page f q).pageTable (m.framePages f) = f := by
    rw [mapped_pageTable, if_neg hne, hqv]
  have hmapped : (mapped procs p page f q).pageTable (m.framePages f) ≠ -1 := by omega
  exact hne (hno q hq p hp _ hv page hpage hmapped (hold.trans hnew.symm))

/-- An access at an address outside the truncated range stays in frames of its own process. -/
theorem Mapping.ownFrame (h : Mapping m procs n) (hpids : FramePids procs n) (p : Fin n)
    {addr : ℤ} (haddr : ¬Truncated addr) : OwnFrame (m, procs) (.access p addr) := by
  intro hret q hq hqp
  dsimp only at hret ⊢
  rw [memAccess_eq m _ haddr] at hret ⊢
  split_ifs at hret ⊢ with hpage hun
  · dsimp only at hret
    omega
  · have hdiv : ((procs p).pageTable (addr / pageSize) * pageSize + addr % pageSize) / pageSize =
        (procs p).pageTable (addr / pageSize) := by
      unfold pageSize
      omega
    dsimp only
    rw [hdiv]
    have hf := (h.entry p p.isLt _ hpage).resolve_left hun
    rw [((h.agree _ hf p p.isLt _ hpage).mpr rfl).1]
    exact fun he => hqp (hpids.distinct p p.isLt q hq he).symm
  · dsimp only at hret
    omega

/-- Below page `0` an access that yields an address yields one in the frame before. -/
theorem ownFrame_truncated {p : Fin n} {addr : ℤ} (haddr : Truncated addr) :
    OwnFrame (m, procs) (.access p addr) ↔ Uncontended (m, procs) (.access p addr) := by
  obtain ⟨hlow, hneg⟩ := id haddr
  unfold OwnFrame Uncontended
  simp only [memAccess_truncated haddr, haddr, true_implies]
  by_cases hpos : 0 < (procs p).pageTable 0
  · have hdiv : ((procs p).pageTable 0 * pageSize + addr) / pageSize =
        (procs p).pageTable 0 - 1 := by
      unfold pageSize at *
      omega
    have hnn : 0 ≤ (procs p).pageTable 0 * pageSize + addr := by
      unfold pageSize at *
      omega
    rw [if_neg (by omega)]
    simp only [hdiv, hnn, hpos, true_implies]
  · refine iff_of_true (fun hnn => ?_) fun h => absurd h hpos
    split_ifs at hnn
    · dsimp only at hnn
      omega
    · unfold pageSize at *
      dsimp only at hnn
      omega

theorem Mapping.call_iff {s : PhysicalMemory × (ℕ → PCB)} (h : Mapping s.1 s.2 n)
    (hpids : FramePids s.2 n) (call : FrameCall n) :
    (Separates s call ↔ Uncontended s call) ∧
      (Uncontended s call → Mapping (frameCall s call).1 (frameCall s call).2 n) := by
  obtain ⟨m, procs⟩ := s
  cases call with
  | setTick tick =>
    exact ⟨iff_of_true ⟨h.noSharedFrame hpids, trivial⟩ trivial,
      fun _ => h.congr rfl rfl rfl (fun _ => rfl) (fun _ => rfl) fun _ => rfl⟩
  | allocate p page =>
    rcases memAllocatePage_cases m (procs p) page ⟨false, 0, 0, 0⟩ with
      ⟨hno, ei, ret, -, he⟩ | ⟨hpage, hun, ⟨f, hf, hfree, he⟩ | ⟨hfull, f, hf, he⟩⟩
    · have hcall : frameCall (m, procs) (.allocate p page) = (m, procs) := by
        simp only [frameCall, he, Function.update_eq_self]
      unfold Separates
      rw [hcall]
      exact ⟨iff_of_true ⟨h.noSharedFrame hpids, trivial⟩ fun hin hun => absurd ⟨hin, hun⟩ hno,
        fun _ => h⟩
    · have hmap := h.resolve_free hpids p.isLt hpage hun hf hfree
      have hcall : frameCall (m, procs) (.allocate p page) =
          ((mapPage { m with freeFrameCount := m.freeFrameCount - 1 } (procs p) page f).1,
            mapped procs p page f) := by
        simp only [frameCall, he]
        rfl
      unfold Separates
      rw [hcall]
      have hpids' := hpids.congr (mapped_pid procs p page f)
      exact ⟨iff_of_true ⟨hmap.noSharedFrame hpids', trivial⟩ fun _ _ => ⟨f, hf, hfree⟩,
        fun _ => hmap⟩
    · have hcall : (frameCall (m, procs) (.allocate p page)).2 = mapped procs p page f := by
        simp only [frameCall, he]
        rfl
      have hshared := h.shared_of_full p.isLt hpage hun hf (hfull f hf)
      have hcond : ¬Uncontended (m, procs) (.allocate p page) := by
        intro hc
        obtain ⟨g, hg, hgfree⟩ := hc hpage hun
        exact hfull g hg hgfree
      unfold Separates
      rw [hcall]
      exact ⟨iff_of_false (fun hs => hshared hs.1) hcond, fun hc => absurd hc hcond⟩
  | access p addr =>
    refine ⟨?_, fun _ => h.access _ _⟩
    by_cases haddr : Truncated addr
    · rw [← ownFrame_truncated haddr]
      exact ⟨fun hs => hs.2, fun ho => ⟨h.noSharedFrame hpids, ho⟩⟩
    · exact iff_of_true ⟨h.noSharedFrame hpids, h.ownFrame hpids p haddr⟩ fun ht => absurd ht haddr
  | free p =>
    have hmap := h.free_process hpids p.isLt
    have hpids' := hpids.congr (memFreeProcess_pid m procs p)
    exact ⟨iff_of_true ⟨hmap.noSharedFrame hpids', trivial⟩ trivial, fun _ => hmap⟩

end calls

/-! ## Runs -/

theorem frameCall_pid {n : ℕ} (s : PhysicalMemory × (ℕ → PCB)) (call : FrameCall n) (i : ℕ) :
    ((frameCall s call).2 i).pid = (s.2 i).pid := by
  cases call with
  | setTick tick => rfl
  | allocate p page =>
    obtain ⟨m, procs⟩ := s
    have hpid : (memAllocatePage m (procs p) page ⟨false, 0, 0, 0⟩).pcb.pid = (procs p).pid := by
      unfold memAllocatePage mapPage
      dsimp only
      split_ifs <;> rfl
    by_cases hi : i = p
    · subst hi
      simp only [frameCall, Function.update_self]
      exact hpid
    · simp only [frameCall, Function.update_of_ne hi]
  | access p addr => rfl
  | free p => exact memFreeProcess_pid _ _ _ i

def frameRun {n : ℕ} (s : PhysicalMemory × (ℕ → PCB)) (calls : List (FrameCall n)) :
    PhysicalMemory × (ℕ → PCB) :=
  calls.foldl frameCall s

/-- For fresh processes, every call of a run leaves the frames apart exactly when every page that
has to be mapped finds a free frame and no access reaches below page `0` into the frame of another
process. -/
theorem frames_separate_iff (m₀ : PhysicalMemory) {procs : ℕ → PCB} {n : ℕ}
    (hpids : FramePids procs n) (hfresh : ∀ p < n, (procs p).Fresh) (calls : List (FrameCall n)) :
    (∀ i (hi : i < calls.length), Separates (frameRun (memInit m₀, procs) (calls.take i)) calls[i]) ↔
      ∀ i (hi : i < calls.length),
        Uncontended (frameRun (memInit m₀, procs) (calls.take i)) calls[i] := by
  have hinit := mapping_memInit m₀ hpids (fun p hp => (hfresh p hp).1) fun p hp => (hfresh p hp).2
  have hstep : ∀ (s : PhysicalMemory × (ℕ → PCB)) (call : FrameCall n),
      Mapping s.1 s.2 n ∧ FramePids s.2 n → (Separates s call ↔ Uncontended s call) ∧
        (Uncontended s call → Mapping (frameCall s call).1 (frameCall s call).2 n ∧
          FramePids (frameCall s call).2 n) := by
    rintro s call ⟨hmap, hp⟩
    obtain ⟨hiff, hkeep⟩ := hmap.call_iff hp call
    exact ⟨hiff, fun hc => ⟨hkeep hc, hp.congr (frameCall_pid s call)⟩⟩
  exact Machine.along_iff hstep ⟨hinit, hpids⟩ calls

theorem framePids_freshProcs (n : ℕ) : FramePids freshProcs n := (pidTable_freshProcs n).framePids

/-- Two pages for each process, as in the loop of `kernel_init`. -/
def bootPages (n : ℕ) : List (FrameCall n) :=
  (List.finRange n).flatMap fun p => [.allocate p 0, .allocate p 1]

/-- The ninth process takes frame `0`. Page `0` of the first process stays in it, and the first
process reads there. -/
theorem frames_shared :
    let s₀ := (memInit ⟨fun _ => 0, fun _ => 0, fun _ => 0, 0, 0⟩, freshProcs)
    let s := frameRun s₀ (bootPages 9)
    ((s.2 0).pageTable 0 = 0 ∧ (s.2 8).pageTable 0 = 0 ∧
      (memAccess s.1 (s.2 0) 5).ret = 5 ∧ s.1.frames 0 = (s.2 8).pid) ∧
      ¬∀ i (hi : i < (bootPages 9).length),
        Separates (frameRun s₀ ((bootPages 9).take i)) (bootPages 9)[i] := by
  intro s₀ s
  refine ⟨by decide +kernel, fun h => ?_⟩
  have hno := (h 16 (by decide)).1
  have heq := hno 0 (by decide) 8 (by decide) 0 (by decide) 0 (by decide) (by decide +kernel)
    (by decide +kernel)
  exact absurd heq.1 (by decide)

/-- Eight processes fill the memory, one leaves, and its frames are free again. -/
theorem frames_separate_iff_boot :
    let s₀ := (memInit ⟨fun _ => 0, fun _ => 0, fun _ => 0, 0, 0⟩, freshProcs)
    let calls := bootPages 8 ++ [.access 0 (-5), .free 2, .allocate 5 2, .access 5 517]
    ∀ i (hi : i < calls.length), Separates (frameRun s₀ (calls.take i)) calls[i] :=
  (frames_separate_iff _ (framePids_freshProcs 8) (fun _ _ => ⟨rfl, rfl⟩) _).mpr (by decide +kernel)

end FleetOS
