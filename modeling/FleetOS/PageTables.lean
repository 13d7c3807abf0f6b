import FleetOS.Counting
import FleetOS.Memory

/-!
# The two copies of the page mapping

Which page is in which frame is written down twice, in the frame table and in the page
tables. `Mapping` says that the two copies agree, that the free frames are counted, and that
every process counts its mapped pages. It holds after `mem_init` for fresh processes and is
kept by a resolved page fault, an access and the release of a process (`Mapping.resolve`,
`Mapping.access`, `Mapping.free_process`), hence by every sequence of them
(`mapping_memRun`). Translation is injective wherever it holds
(`Mapping.translate_injective`).

An eviction writes the frame table in `memory.c` and the victim's page table in `kernel.c`.
The victim can be the faulting process; its cleared page is then another one, since the
faulting page was unmapped.
-/

namespace FleetOS

theorem mem_frameIndices {f : ℤ} : f ∈ frameIndices ↔ 0 ≤ f ∧ f < frameCount := by
  simp only [frameIndices, List.mem_map, List.mem_range]
  constructor
  · rintro ⟨i, hi, rfl⟩
    omega
  · rintro ⟨h0, h1⟩
    exact ⟨f.toNat, by omega, by omega⟩

theorem mem_pageIndices {x : ℤ} : x ∈ pageIndices ↔ 0 ≤ x ∧ x < maxPages := by
  simp only [pageIndices, List.mem_map, List.mem_range]
  constructor
  · rintro ⟨i, hi, rfl⟩
    omega
  · rintro ⟨h0, h1⟩
    exact ⟨x.toNat, by omega, by omega⟩

theorem nodup_frameIndices : frameIndices.Nodup :=
  List.nodup_range.map Nat.cast_injective

theorem nodup_pageIndices : pageIndices.Nodup :=
  List.nodup_range.map Nat.cast_injective

/-! ## The frame that is chosen -/

theorem findFreeFrame_cases (m : PhysicalMemory) :
    (findFreeFrame m = -1 ∧ ∀ f ∈ frameIndices, m.frames f ≠ -1) ∨
      (findFreeFrame m ∈ frameIndices ∧ m.frames (findFreeFrame m) = -1) := by
  unfold findFreeFrame
  cases h : frameIndices.find? fun i => decide (m.frames i = -1) with
  | none => exact Or.inl ⟨rfl, fun f hf => by simpa using List.find?_eq_none.mp h f hf⟩
  | some f => exact Or.inr ⟨List.mem_of_find?_eq_some h, by simpa using List.find?_some h⟩

theorem selectLruVictim_mem (m : PhysicalMemory) : selectLruVictim m ∈ frameIndices := by
  unfold selectLruVictim
  refine List.foldlRecOn _ _ (by decide) fun oldest ho i hi => ?_
  split_ifs
  · exact List.mem_of_mem_tail hi
  · exact ho

/-! ## The invariant -/

/-- A process counts its mapped pages. -/
def PCB.Counted (c : PCB) : Prop := c.pagesUsed = memGetPageCount c

structure Mapping (m : PhysicalMemory) (procs : ℕ → PCB) (n : ℕ) : Prop where
  agree : ∀ f ∈ frameIndices, ∀ p < n, ∀ page ∈ pageIndices,
    (m.frames f = (procs p).pid ∧ m.framePages f = page) ↔ (procs p).pageTable page = f
  entry : ∀ p < n, ∀ page ∈ pageIndices,
    (procs p).pageTable page = -1 ∨ (procs p).pageTable page ∈ frameIndices
  owner : ∀ f ∈ frameIndices,
    m.frames f = -1 ∨ ∃ p < n, m.frames f = (procs p).pid ∧ m.framePages f ∈ pageIndices
  free : m.freeFrameCount = frameIndices.countP fun f => m.frames f = -1
  used : ∀ p < n, (procs p).Counted

/-- Pids that can own frames : distinct, and none of them the mark of a free frame. -/
structure FramePids (procs : ℕ → PCB) (n : ℕ) : Prop where
  distinct : DistinctPids procs n
  taken : ∀ p < n, (procs p).pid ≠ -1

theorem FramePids.congr {procs procs' : ℕ → PCB} {n : ℕ} (h : FramePids procs n)
    (hpid : ∀ i, (procs' i).pid = (procs i).pid) : FramePids procs' n := by
  refine ⟨fun i hi j hj he => h.distinct i hi j hj ?_, fun p hp => ?_⟩
  · rwa [hpid, hpid] at he
  · rw [hpid]
    exact h.taken p hp

/-- What the process table has to offer : distinct pids that are not negative. -/
structure PidTable (procs : ℕ → PCB) (n : ℕ) : Prop where
  distinct : DistinctPids procs n
  nonneg : ∀ p < n, 0 ≤ (procs p).pid

theorem PidTable.congr {procs procs' : ℕ → PCB} {n : ℕ} (h : PidTable procs n)
    (hpid : ∀ i, (procs' i).pid = (procs i).pid) : PidTable procs' n := by
  refine ⟨fun i hi j hj he => h.distinct i hi j hj ?_, fun p hp => ?_⟩
  · rwa [hpid, hpid] at he
  · rw [hpid]
    exact h.nonneg p hp

theorem PidTable.framePids {procs : ℕ → PCB} {n : ℕ} (h : PidTable procs n) :
    FramePids procs n := by
  refine ⟨h.distinct, fun p hp he => ?_⟩
  have := h.nonneg p hp
  omega

/-- The invariant reads the frame table, the free count and the page tables only. -/
theorem Mapping.congr {m m' : PhysicalMemory} {procs procs' : ℕ → PCB} {n : ℕ}
    (h : Mapping m procs n) (hf : m'.frames = m.frames) (hp : m'.framePages = m.framePages)
    (hc : m'.freeFrameCount = m.freeFrameCount) (hpid : ∀ i, (procs' i).pid = (procs i).pid)
    (htab : ∀ i, (procs' i).pageTable = (procs i).pageTable)
    (hused : ∀ i, (procs' i).pagesUsed = (procs i).pagesUsed) : Mapping m' procs' n := by
  refine ⟨?_, ?_, ?_, ?_, fun p hp => ?_⟩
  · simpa only [hf, hp, hpid, htab] using h.agree
  · simpa only [htab] using h.entry
  · simpa only [hf, hp, hpid] using h.owner
  · rw [hc, hf]
    exact h.free
  · have := h.used p hp
    unfold PCB.Counted memGetPageCount at this ⊢
    rw [hused, htab]
    exact this

theorem mapping_memInit (m : PhysicalMemory) {procs : ℕ → PCB} {n : ℕ} (hpids : FramePids procs n)
    (htab : ∀ p < n, (procs p).pageTable = fun _ => -1) (hused : ∀ p < n, (procs p).pagesUsed = 0) :
    Mapping (memInit m) procs n := by
  refine ⟨fun f hf p hp page _ => ?_, fun p hp _ _ => ?_, fun f _ => Or.inl rfl, ?_, fun p hp => ?_⟩
  · have h0 := (mem_frameIndices.mp hf).1
    rw [htab p hp]
    constructor
    · rintro ⟨he, -⟩
      exact absurd he.symm (hpids.taken p hp)
    · intro he
      have he : (-1 : ℤ) = f := he
      omega
  · rw [htab p hp]
    exact Or.inl rfl
  · simp [memInit, frameIndices]
  · simp [PCB.Counted, memGetPageCount, htab p hp, hused p hp]

/-! ## Mapping and clearing one entry -/

theorem PCB.Counted.map {c : PCB} (h : c.Counted) {page f : ℤ} (hpage : page ∈ pageIndices)
    (hun : c.pageTable page = -1) (hf : f ≠ -1) :
    ({ c with
      pageTable := Function.update c.pageTable page f, pagesUsed := c.pagesUsed + 1 } :
      PCB).Counted := by
  have hcount := Counting.countP_update (fun x : ℤ => decide (x ≠ -1)) c.pageTable f nodup_pageIndices hpage
  simp only [hun, ne_eq, not_true, decide_false, Bool.false_eq_true, if_false, hf, not_false_eq_true,
    decide_true, if_true] at hcount
  unfold Counted memGetPageCount at h ⊢
  simp only [ne_eq]
  simp only [ne_eq] at h
  omega

theorem PCB.Counted.clear {c : PCB} (h : c.Counted) {page : ℤ} (hpage : page ∈ pageIndices)
    (hmapped : c.pageTable page ≠ -1) :
    ({ c with
      pageTable := Function.update c.pageTable page (-1), pagesUsed := c.pagesUsed - 1 } :
      PCB).Counted := by
  have hcount := Counting.countP_update (fun x : ℤ => decide (x ≠ -1)) c.pageTable (-1) nodup_pageIndices
    hpage
  simp only [ne_eq, hmapped, not_true, decide_false, Bool.false_eq_true, if_false,
    not_false_eq_true, decide_true, if_true] at hcount
  unfold Counted memGetPageCount at h ⊢
  simp only [ne_eq]
  simp only [ne_eq] at h
  omega

/-- Frame `f` goes to `page` of process `p` and to nobody else. -/
theorem Mapping.remap {m m' : PhysicalMemory} {procs procs' : ℕ → PCB} {n p : ℕ} {page f : ℤ}
    (h : Mapping m procs n) (hpids : FramePids procs n) (hp : p < n) (hpage : page ∈ pageIndices)
    (hf : f ∈ frameIndices) (hun : (procs p).pageTable page = -1)
    (hframes : m'.frames = Function.update m.frames f (procs p).pid)
    (hpages : m'.framePages = Function.update m.framePages f page)
    (hpid : ∀ i, (procs' i).pid = (procs i).pid)
    (hentry : ∀ i < n, ∀ x ∈ pageIndices, (procs' i).pageTable x =
      if i = p ∧ x = page then f
      else if (procs i).pageTable x = f then -1 else (procs i).pageTable x)
    (hfree : m'.freeFrameCount = if m.frames f = -1 then m.freeFrameCount - 1
      else m.freeFrameCount)
    (hused : ∀ i < n, (procs' i).Counted) : Mapping m' procs' n := by
  have hf0 := (mem_frameIndices.mp hf).1
  have hppos := hpids.taken p hp
  refine ⟨fun g hg i hi x hx => ?_, fun i hi x hx => ?_, fun g hg => ?_, ?_, hused⟩
  · have hg0 := (mem_frameIndices.mp hg).1
    rw [hframes, hpages, hpid, hentry i hi x hx]
    by_cases hgf : g = f
    · subst hgf
      rw [Function.update_self, Function.update_self]
      constructor
      · rintro ⟨hpi, rfl⟩
        rw [if_pos ⟨(hpids.distinct p hp i hi hpi).symm, rfl⟩]
      · intro he
        split_ifs at he with h1 h2
        · exact ⟨h1.1 ▸ rfl, h1.2.symm⟩
        · omega
        · exact absurd he h2
    · rw [Function.update_of_ne hgf, Function.update_of_ne hgf, h.agree g hg i hi x hx]
      split_ifs with h1 h2
      · rw [h1.1, h1.2, hun]
        constructor <;> intro he <;> omega
      · rw [h2]
        constructor <;> intro he <;> omega
      · rfl
  · rw [hentry i hi x hx]
    split_ifs with h1 h2
    · exact Or.inr hf
    · exact Or.inl rfl
    · exact h.entry i hi x hx
  · rw [hframes, hpages]
    by_cases hgf : g = f
    · subst hgf
      rw [Function.update_self, Function.update_self]
      exact Or.inr ⟨p, hp, (hpid p).symm, hpage⟩
    · rw [Function.update_of_ne hgf, Function.update_of_ne hgf]
      rcases h.owner g hg with he | ⟨i, hi, he, hx⟩
      · exact Or.inl he
      · exact Or.inr ⟨i, hi, he.trans (hpid i).symm, hx⟩
  · have hcount := Counting.countP_update (fun x : ℤ => decide (x = -1)) m.frames (procs p).pid
      nodup_frameIndices hf
    simp only [decide_eq_true_eq, hppos, if_false, add_zero] at hcount
    rw [hfree, hframes, h.free]
    split_ifs at hcount ⊢ <;> omega

/-! ## The steps -/

/-- Process `p` of the table after `page` got frame `f`. -/
def mapped (procs : ℕ → PCB) (p : ℕ) (page f : ℤ) : ℕ → PCB :=
  Function.update procs p { procs p with
    pageTable := Function.update (procs p).pageTable page f
    pagesUsed := (procs p).pagesUsed + 1 }

/-- A part of the PCB that the memory code does not write. -/
def Unpaged {α : Type*} (g : PCB → α) : Prop :=
  ∀ c tab used, g { c with pageTable := tab, pagesUsed := used } = g c

theorem mapped_unpaged {α : Type*} {g : PCB → α} (hg : Unpaged g) (procs : ℕ → PCB) (p : ℕ)
    (page f : ℤ) (i : ℕ) : g (mapped procs p page f i) = g (procs i) := by
  unfold mapped
  by_cases hi : i = p
  · subst hi
    rw [Function.update_self]
    exact hg (procs i) _ _
  · rw [Function.update_of_ne hi]

theorem mapped_pid (procs : ℕ → PCB) (p : ℕ) (page f : ℤ) (i : ℕ) :
    (mapped procs p page f i).pid = (procs i).pid :=
  mapped_unpaged (fun _ _ _ => rfl) procs p page f i

theorem mapped_pageTable (procs : ℕ → PCB) (p : ℕ) (page f : ℤ) (i : ℕ) (x : ℤ) :
    (mapped procs p page f i).pageTable x =
      if i = p ∧ x = page then f else (procs i).pageTable x := by
  unfold mapped
  by_cases hi : i = p
  · subst hi
    rw [Function.update_self]
    simp only [Function.update_apply, true_and]
  · rw [Function.update_of_ne hi, if_neg fun h => hi h.1]

theorem counted_mapped {procs : ℕ → PCB} {p : ℕ} {page f : ℤ} (hpage : page ∈ pageIndices)
    (hun : (procs p).pageTable page = -1) (hf : f ≠ -1) {i : ℕ} (h : (procs i).Counted) :
    (mapped procs p page f i).Counted := by
  unfold mapped
  by_cases hi : i = p
  · subst hi
    rw [Function.update_self]
    exact h.map hpage hun hf
  · rw [Function.update_of_ne hi]
    exact h

/-- A fault that finds a free frame. -/
theorem Mapping.resolve_free {m : PhysicalMemory} {procs : ℕ → PCB} {n p : ℕ} {page f : ℤ}
    (h : Mapping m procs n) (hpids : FramePids procs n) (hp : p < n) (hpage : page ∈ pageIndices)
    (hun : (procs p).pageTable page = -1) (hf : f ∈ frameIndices) (hfree : m.frames f = -1) :
    Mapping (mapPage { m with freeFrameCount := m.freeFrameCount - 1 } (procs p) page f).1
      (mapped procs p page f) n := by
  have hf0 := (mem_frameIndices.mp hf).1
  refine h.remap hpids hp hpage hf hun rfl rfl (mapped_pid procs p page f) (fun i hi x hx => ?_)
    (if_pos hfree).symm fun i hi => counted_mapped hpage hun (by omega) (h.used i hi)
  rw [mapped_pageTable]
  -- no page was in the free frame, so the entry that `remap` clears does not exist
  have hno : (procs i).pageTable x ≠ f := by
    intro he
    have hown := ((h.agree f hf i hi x hx).mpr he).1
    exact hpids.taken i hi (hown.symm.trans hfree)
  rw [if_neg hno]

/-- A fault that evicts page `v` of process `q` from frame `f`. -/
theorem Mapping.resolve_evict {m : PhysicalMemory} {procs : ℕ → PCB} {n p : ℕ} {page f : ℤ}
    (h : Mapping m procs n) (hpids : PidTable procs n) (hp : p < n) (hpage : page ∈ pageIndices)
    (hun : (procs p).pageTable page = -1) (hf : f ∈ frameIndices) (hfull : m.frames f ≠ -1) :
    Mapping (mapPage m (procs p) page f).1
      (repairVictim (mapped procs p page f) n ⟨true, m.frames f, m.framePages f, f⟩) n := by
  have hf0 := (mem_frameIndices.mp hf).1
  obtain ⟨q, hq, hpidq, hv⟩ := (h.owner f hf).resolve_left hfull
  set v := m.framePages f with hvdef
  have hv0 := (mem_pageIndices.mp hv).1
  have htab : ∀ i < n, ∀ x ∈ pageIndices, (procs i).pageTable x = f ↔ i = q ∧ x = v := by
    intro i hi x hx
    rw [← h.agree f hf i hi x hx]
    constructor
    · rintro ⟨hi', hx'⟩
      exact ⟨hpids.distinct i hi q hq (hi'.symm.trans hpidq), hx'.symm⟩
    · rintro ⟨rfl, rfl⟩
      exact ⟨hpidq, rfl⟩
  have hqv : (procs q).pageTable v = f := (htab q hq v hv).mpr ⟨rfl, rfl⟩
  have hne : ¬(q = p ∧ v = page) := by
    rintro ⟨rfl, he⟩
    rw [he, hun] at hqv
    omega
  have hfind : findProc (mapped procs p page f) n (m.frames f) = some q := by
    have hd := (hpids.congr (mapped_pid procs p page f)).distinct
    rw [hpidq, ← mapped_pid procs p page f q]
    exact findProc_pid hd hq
  have he : repairVictim (mapped procs p page f) n ⟨true, m.frames f, v, f⟩ =
      Function.update (mapped procs p page f) q { mapped procs p page f q with
        pageTable := Function.update (mapped procs p page f q).pageTable v (-1)
        pagesUsed := (mapped procs p page f q).pagesUsed - 1 } := by
    simp only [repairVictim, hfind, hv0, if_true]
  rw [he]
  refine h.remap hpids.framePids hp hpage hf hun rfl rfl (fun i => ?_) (fun i hi x hx => ?_)
    (if_neg hfull).symm fun i hi => ?_
  · by_cases hiq : i = q
    · subst hiq
      rw [Function.update_self]
      exact mapped_pid procs p page f i
    · rw [Function.update_of_ne hiq]
      exact mapped_pid procs p page f i
  · have hold := htab i hi x hx
    by_cases hiq : i = q
    · subst hiq
      rw [Function.update_self]
      by_cases hxv : x = v
      · rw [hxv, if_neg hne, hqv, if_pos rfl]
        exact Function.update_self _ _ _
      · rw [if_neg fun hxf => hxv (hold.mp hxf).2, ← mapped_pageTable]
        exact Function.update_of_ne hxv _ _
    · rw [Function.update_of_ne hiq, if_neg fun hxf => hiq (hold.mp hxf).1, mapped_pageTable]
  · have hc := counted_mapped (f := f) hpage hun (by omega) (h.used i hi)
    by_cases hiq : i = q
    · subst hiq
      rw [Function.update_self]
      refine hc.clear hv ?_
      rw [mapped_pageTable, if_neg hne, hqv]
      omega
    · rw [Function.update_of_ne hiq]
      exact hc

theorem repairVictim_unpaged {α : Type*} {g : PCB → α} (hg : Unpaged g) (procs : ℕ → PCB) (n : ℕ)
    (ei : EvictionInfo) (i : ℕ) : g (repairVictim procs n ei i) = g (procs i) := by
  cases hf : findProc procs n ei.victimPid with
  | none => simp only [repairVictim, hf, ite_self]
  | some v =>
    simp only [repairVictim, hf]
    split_ifs
    · by_cases hi : i = v
      · subst hi
        rw [Function.update_self]
        exact hg (procs i) _ _
      · rw [Function.update_of_ne hi]
    · rfl
    · rfl

/-- An allocation does nothing, takes a free frame, or, if there is none, the frame of a
victim. -/
theorem memAllocatePage_cases (m : PhysicalMemory) (pcb : PCB) (page : ℤ) (ei : EvictionInfo) :
    (¬(page ∈ pageIndices ∧ pcb.pageTable page = -1) ∧
      ∃ ei' ret, (ei' = ei ∨ ei'.evicted = false) ∧
        memAllocatePage m pcb page ei = ⟨m, pcb, ei', ret⟩) ∨
    (page ∈ pageIndices ∧ pcb.pageTable page = -1 ∧
      ((∃ f ∈ frameIndices, m.frames f = -1 ∧ memAllocatePage m pcb page ei =
        let r := mapPage { m with freeFrameCount := m.freeFrameCount - 1 } pcb page f
        ⟨r.1, r.2, ⟨false, -1, -1, -1⟩, f⟩) ∨
      ((∀ f ∈ frameIndices, m.frames f ≠ -1) ∧ ∃ f ∈ frameIndices, memAllocatePage m pcb page ei =
        let r := mapPage m pcb page f
        ⟨r.1, r.2, ⟨true, m.frames f, m.framePages f, f⟩, f⟩))) := by
  by_cases hrange : page < 0 ∨ (maxPages : ℤ) ≤ page
  · refine Or.inl ⟨fun hin => ?_, ei, -1, Or.inl rfl, if_pos hrange⟩
    have := mem_pageIndices.mp hin.1
    omega
  by_cases hun : pcb.pageTable page = -1
  · refine Or.inr ⟨mem_pageIndices.mpr (by omega), hun, ?_⟩
    rcases findFreeFrame_cases m with ⟨hnone, hfull⟩ | ⟨hf, hfree⟩
    · refine Or.inr ⟨hfull, selectLruVictim m, selectLruVictim_mem m, ?_⟩
      simp [memAllocatePage, hrange, hun, hnone]
    · have hneg : ¬findFreeFrame m < 0 := by
        have := (mem_frameIndices.mp hf).1
        omega
      refine Or.inl ⟨findFreeFrame m, hf, hfree, ?_⟩
      simp [memAllocatePage, hrange, hun, hneg]
  · refine Or.inl ⟨fun hin => hun hin.2, ⟨false, -1, -1, -1⟩, pcb.pageTable page, Or.inr rfl, ?_⟩
    simp [memAllocatePage, hrange, hun]

/-- Everything a resolved page fault can do. -/
theorem resolvePageFault_cases (m : PhysicalMemory) (procs : ℕ → PCB) (n p : ℕ) (page : ℤ) :
    resolvePageFault m procs n p page = (m, procs) ∨
      (page ∈ pageIndices ∧ (procs p).pageTable page = -1 ∧
        ((∃ f ∈ frameIndices, m.frames f = -1 ∧ resolvePageFault m procs n p page =
          ((mapPage { m with freeFrameCount := m.freeFrameCount - 1 } (procs p) page f).1,
            mapped procs p page f)) ∨
        ∃ f ∈ frameIndices, m.frames f ≠ -1 ∧ resolvePageFault m procs n p page =
          ((mapPage m (procs p) page f).1,
            repairVictim (mapped procs p page f) n ⟨true, m.frames f, m.framePages f, f⟩))) := by
  unfold resolvePageFault
  rcases memAllocatePage_cases m (procs p) page ⟨false, 0, 0, 0⟩ with
    ⟨-, ei, ret, hei, he⟩ | ⟨hpage, hun, ⟨f, hf, hfree, he⟩ | ⟨hfull, f, hf, he⟩⟩
  · have hnone : ei.evicted = false := hei.elim (fun h => by rw [h]) id
    rw [he]
    left
    simp [repairVictim, hnone]
  · rw [he]
    exact Or.inr ⟨hpage, hun, Or.inl ⟨f, hf, hfree, rfl⟩⟩
  · rw [he]
    exact Or.inr ⟨hpage, hun, Or.inr ⟨f, hf, hfull f hf, rfl⟩⟩

theorem Mapping.resolve {m : PhysicalMemory} {procs : ℕ → PCB} {n p : ℕ} (h : Mapping m procs n)
    (hpids : PidTable procs n) (hp : p < n) (page : ℤ) :
    Mapping (resolvePageFault m procs n p page).1 (resolvePageFault m procs n p page).2 n := by
  rcases resolvePageFault_cases m procs n p page with
    he | ⟨hpage, hun, ⟨f, hf, hfree, he⟩ | ⟨f, hf, hfull, he⟩⟩
  · rw [he]
    exact h
  · rw [he]
    exact h.resolve_free hpids.framePids hp hpage hun hf hfree
  · rw [he]
    exact h.resolve_evict hpids hp hpage hun hf hfull

theorem resolvePageFault_unpaged {α : Type*} {g : PCB → α} (hg : Unpaged g) (m : PhysicalMemory)
    (procs : ℕ → PCB) (n p : ℕ) (page : ℤ) (i : ℕ) :
    g ((resolvePageFault m procs n p page).2 i) = g (procs i) := by
  rcases resolvePageFault_cases m procs n p page with
    he | ⟨-, -, ⟨f, -, -, he⟩ | ⟨f, -, -, he⟩⟩
  · rw [he]
  · rw [he]
    exact mapped_unpaged hg procs p page f i
  · rw [he]
    dsimp only
    rw [repairVictim_unpaged hg, mapped_unpaged hg]

theorem resolvePageFault_pid (m : PhysicalMemory) (procs : ℕ → PCB) (n p : ℕ) (page : ℤ) (i : ℕ) :
    ((resolvePageFault m procs n p page).2 i).pid = (procs i).pid :=
  resolvePageFault_unpaged (fun _ _ _ => rfl) m procs n p page i

theorem resolvePageFault_state (m : PhysicalMemory) (procs : ℕ → PCB) (n p : ℕ) (page : ℤ)
    (i : ℕ) : ((resolvePageFault m procs n p page).2 i).state = (procs i).state :=
  resolvePageFault_unpaged (fun _ _ _ => rfl) m procs n p page i

/-- An access changes access times only. -/
theorem Mapping.access {m : PhysicalMemory} {procs : ℕ → PCB} {n : ℕ} (h : Mapping m procs n)
    (pcb : PCB) (addr : ℤ) : Mapping (memAccess m pcb addr).mem procs n := by
  unfold memAccess
  dsimp only
  split_ifs
  · exact h
  · exact h
  · exact h.congr rfl rfl rfl (fun _ => rfl) (fun _ => rfl) fun _ => rfl

theorem memFreeProcess_pid (m : PhysicalMemory) (procs : ℕ → PCB) (p i : ℕ) :
    (Function.update procs p (memFreeProcess m (procs p)).2 i).pid = (procs i).pid := by
  by_cases hi : i = p
  · subst hi
    rw [Function.update_self]
    rfl
  · rw [Function.update_of_ne hi]

theorem countP_freed (frames : ℤ → ℤ) {pid : ℤ} (h : pid ≠ -1) : ∀ l : List ℤ,
    (l.countP fun f => (if frames f = pid then -1 else frames f) = -1) =
      (l.countP fun f => frames f = -1) + l.countP fun f => frames f = pid
  | [] => rfl
  | f :: l => by
    rw [List.countP_cons, List.countP_cons, List.countP_cons, countP_freed frames h l]
    by_cases hown : frames f = pid
    · simp [hown, h]
      omega
    · simp [hown]
      omega

theorem Mapping.free_process {m : PhysicalMemory} {procs : ℕ → PCB} {n p : ℕ}
    (h : Mapping m procs n) (hpids : FramePids procs n) (hp : p < n) :
    Mapping (memFreeProcess m (procs p)).1
      (Function.update procs p (memFreeProcess m (procs p)).2) n := by
  have hpid := memFreeProcess_pid m procs p
  have hppos := hpids.taken p hp
  have htab : ∀ i < n, ∀ x, (Function.update procs p (memFreeProcess m (procs p)).2 i).pageTable x =
      if i = p then -1 else (procs i).pageTable x := by
    intro i _ x
    by_cases hi : i = p
    · subst hi
      rw [Function.update_self, if_pos rfl]
      rfl
    · rw [Function.update_of_ne hi, if_neg hi]
  have hframes : ∀ f, (memFreeProcess m (procs p)).1.frames f =
      if m.frames f = (procs p).pid then -1 else m.frames f := fun _ => rfl
  have hpages : ∀ f, (memFreeProcess m (procs p)).1.framePages f =
      if m.frames f = (procs p).pid then -1 else m.framePages f := fun _ => rfl
  refine ⟨fun f hf i hi x hx => ?_, fun i hi x hx => ?_, fun f hf => ?_, ?_, fun i hi => ?_⟩
  · have hf0 := (mem_frameIndices.mp hf).1
    have hipos := hpids.taken i hi
    have hold := h.agree f hf i hi x hx
    rw [hframes, hpages, hpid, htab i hi]
    by_cases hip : i = p
    · rw [if_pos hip, hip]
      split_ifs <;> constructor
      · rintro ⟨he, -⟩
        omega
      · intro he
        omega
      · rintro ⟨he, -⟩
        contradiction
      · intro he
        omega
    · rw [if_neg hip, ← hold]
      split_ifs with hown
      · constructor
        · rintro ⟨he, -⟩
          omega
        · rintro ⟨he, -⟩
          exact absurd (hpids.distinct i hi p hp (he.symm.trans hown)) hip
      · rfl
  · rw [htab i hi]
    split_ifs
    · exact Or.inl rfl
    · exact h.entry i hi x hx
  · rw [hframes, hpages]
    split_ifs with hown
    · exact Or.inl rfl
    · refine (h.owner f hf).imp_right fun ⟨i, hi, he, hx⟩ => ⟨i, hi, ?_, hx⟩
      rw [hpid]
      exact he
  · change m.freeFrameCount + _ = _
    rw [h.free]
    simp only [hframes]
    rw [countP_freed _ hppos]
    push_cast
    rfl
  · by_cases hip : i = p
    · subst hip
      rw [Function.update_self]
      simp [PCB.Counted, memGetPageCount, memFreeProcess]
    · rw [Function.update_of_ne hip]
      exact h.used i hi

/-! ## Runs -/

/-- A memory step of the kernel for one of the `n` processes. -/
inductive MemStep (n : ℕ)
  | setTick (tick : ℤ)
  | fault (p : Fin n) (page : ℤ)
  | access (p : Fin n) (addr : ℤ)
  | free (p : Fin n)

def memStep {n : ℕ} (s : PhysicalMemory × (ℕ → PCB)) : MemStep n → PhysicalMemory × (ℕ → PCB)
  | .setTick tick => (memSetTick s.1 tick, s.2)
  | .fault p page => resolvePageFault s.1 s.2 n p page
  | .access p addr => ((memAccess s.1 (s.2 p) addr).mem, s.2)
  | .free p =>
    ((memFreeProcess s.1 (s.2 p)).1, Function.update s.2 p (memFreeProcess s.1 (s.2 p)).2)

def memRun {n : ℕ} (s : PhysicalMemory × (ℕ → PCB)) (steps : List (MemStep n)) :
    PhysicalMemory × (ℕ → PCB) :=
  steps.foldl memStep s

theorem memStep_pid {n : ℕ} (s : PhysicalMemory × (ℕ → PCB)) (step : MemStep n) (i : ℕ) :
    ((memStep s step).2 i).pid = (s.2 i).pid := by
  cases step with
  | setTick tick => rfl
  | fault p page => exact resolvePageFault_pid _ _ _ _ _ i
  | access p addr => rfl
  | free p => exact memFreeProcess_pid _ _ _ i

theorem mapping_memStep {n : ℕ} {s : PhysicalMemory × (ℕ → PCB)} (h : Mapping s.1 s.2 n)
    (hpids : PidTable s.2 n) (step : MemStep n) :
    Mapping (memStep s step).1 (memStep s step).2 n := by
  cases step with
  | setTick tick => exact h.congr rfl rfl rfl (fun _ => rfl) (fun _ => rfl) fun _ => rfl
  | fault p page => exact h.resolve hpids p.isLt page
  | access p addr => exact h.access _ _
  | free p => exact h.free_process hpids.framePids p.isLt

theorem mapping_memRun {n : ℕ} {s : PhysicalMemory × (ℕ → PCB)} (h : Mapping s.1 s.2 n)
    (hpids : PidTable s.2 n) (steps : List (MemStep n)) :
    Mapping (memRun s steps).1 (memRun s steps).2 n := by
  induction steps generalizing s with
  | nil => exact h
  | cons step steps ih =>
    exact ih (mapping_memStep h hpids step) (hpids.congr (memStep_pid s step))

theorem memRun_pid {n : ℕ} (s : PhysicalMemory × (ℕ → PCB)) (steps : List (MemStep n)) (i : ℕ) :
    ((memRun s steps).2 i).pid = (s.2 i).pid := by
  induction steps generalizing s with
  | nil => rfl
  | cons step steps ih => exact (ih (memStep s step)).trans (memStep_pid s step i)

/-! ## Translation -/

/-- What a successful translation of a non-negative address read. -/
theorem memAccess_ret {m : PhysicalMemory} {pcb : PCB} {addr : ℤ} (haddr : 0 ≤ addr)
    (h : (memAccess m pcb addr).ret ≠ -1) :
    addr / pageSize ∈ pageIndices ∧ pcb.pageTable (addr / pageSize) ≠ -1 ∧
      (memAccess m pcb addr).ret =
        pcb.pageTable (addr / pageSize) * pageSize + addr % pageSize := by
  have hdiv : addr.tdiv pageSize = addr / pageSize := Int.tdiv_eq_ediv_of_nonneg haddr
  have hmod : addr.tmod pageSize = addr % pageSize := Int.tmod_eq_emod_of_nonneg haddr
  unfold memAccess at h ⊢
  rw [hdiv, hmod] at h ⊢
  dsimp only at h ⊢
  split_ifs at h ⊢ with hrange hun
  · exact absurd rfl h
  · exact absurd rfl h
  · exact ⟨mem_pageIndices.mpr (by omega), hun, rfl⟩

theorem Mapping.translate_injective {m : PhysicalMemory} {procs : ℕ → PCB} {n p q : ℕ}
    (h : Mapping m procs n) (hpids : PidTable procs n) (hp : p < n) (hq : q < n) {a b : ℤ}
    (ha : 0 ≤ a) (hb : 0 ≤ b) (hpa : (memAccess m (procs p) a).ret ≠ -1)
    (he : (memAccess m (procs p) a).ret = (memAccess m (procs q) b).ret) : p = q ∧ a = b := by
  obtain ⟨hpage, hf, hret⟩ := memAccess_ret ha hpa
  obtain ⟨hpage', hf', hret'⟩ := memAccess_ret hb (he ▸ hpa)
  rw [hret, hret'] at he
  have hsize : pageSize = 256 := rfl
  have hframe : (procs p).pageTable (a / pageSize) = (procs q).pageTable (b / pageSize) := by
    rw [hsize] at he ⊢
    omega
  have hmem := (h.entry p hp _ hpage).resolve_left hf
  obtain ⟨hown, hpg⟩ := (h.agree _ hmem p hp _ hpage).mpr rfl
  obtain ⟨hown', hpg'⟩ := (h.agree _ hmem q hq _ hpage').mpr hframe.symm
  refine ⟨hpids.distinct p hp q hq (hown.symm.trans hown'), ?_⟩
  have hdiv : a / pageSize = b / pageSize := hpg.symm.trans hpg'
  rw [hsize] at he hdiv
  omega

/-- A new process has no page. -/
def PCB.Fresh (c : PCB) : Prop := c.pageTable = (fun _ => -1) ∧ c.pagesUsed = 0

/-- After any memory steps of fresh processes the two copies of the mapping agree, the counts
are right, and no two addresses share a physical one. -/
theorem page_mapping_consistent (m₀ : PhysicalMemory) {procs : ℕ → PCB} {n : ℕ}
    (hpids : PidTable procs n) (hfresh : ∀ p < n, (procs p).Fresh) (steps : List (MemStep n))
    {m : PhysicalMemory} {procs' : ℕ → PCB} (hrun : memRun (memInit m₀, procs) steps = (m, procs')) :
    (∀ f ∈ frameIndices, ∀ p < n, ∀ page ∈ pageIndices,
      (m.frames f = (procs' p).pid ∧ m.framePages f = page) ↔ (procs' p).pageTable page = f) ∧
    m.freeFrameCount = (frameIndices.countP fun f => m.frames f = -1) ∧
    (∀ p < n, (procs' p).pagesUsed = pageIndices.countP fun page => (procs' p).pageTable page ≠ -1) ∧
    ∀ p < n, ∀ q < n, ∀ a b : ℤ, 0 ≤ a → 0 ≤ b → (p, a) ≠ (q, b) →
      (memAccess m (procs' p) a).ret ≠ -1 → (memAccess m (procs' q) b).ret ≠ -1 →
      (memAccess m (procs' p) a).ret ≠ (memAccess m (procs' q) b).ret := by
  have hinit := mapping_memInit m₀ hpids.framePids (fun p hp => (hfresh p hp).1) fun p hp => (hfresh p hp).2
  have h := mapping_memRun (s := (memInit m₀, procs)) hinit hpids steps
  have hpid := memRun_pid (memInit m₀, procs) steps
  rw [hrun] at h hpid
  have hpids' : PidTable procs' n := hpids.congr hpid
  refine ⟨h.agree, h.free, h.used, fun p hp q hq a b ha hb hne hpa _ he => hne ?_⟩
  obtain ⟨rfl, rfl⟩ := h.translate_injective hpids' hp hq ha hb hpa he
  rfl

/-- Process 0 faults all its pages in, then process 1 takes the oldest frame from it. -/
theorem page_mapping_consistent_evicted :
    let s := memRun (n := 2)
      (memInit ⟨fun _ => 0, fun _ => 0, fun _ => 0, 0, 0⟩, fun i => pcbCreate i [] .normal)
      ((List.range 16).map (fun page => .fault 0 page) ++ [.setTick 1, .fault 1 0, .access 1 5])
    (s.1.frames 0 = 1 ∧ s.1.framePages 0 = 0) ∧ (s.2 0).pageTable 0 = -1 ∧
      (s.2 0).pagesUsed = 15 ∧ s.1.freeFrameCount = 0 := by
  intro s
  have hpids : PidTable (fun i => pcbCreate i [] .normal) 2 :=
    ⟨fun i _ j _ he => by simpa [pcbCreate] using he, fun p _ => by simp [pcbCreate]⟩
  have h := page_mapping_consistent ⟨fun _ => 0, fun _ => 0, fun _ => 0, 0, 0⟩ hpids
    (fun _ _ => ⟨rfl, rfl⟩)
    ((List.range 16).map (fun page => .fault 0 page) ++ [.setTick 1, .fault 1 0, .access 1 5]) rfl
  obtain ⟨hagree, hfree, hused, -⟩ := h
  refine ⟨(hagree 0 (by decide) 1 (by decide) 0 (by decide)).mpr (by decide +kernel), ?_, ?_, ?_⟩
  · decide +kernel
  · exact (hused 0 (by decide)).trans (by decide +kernel)
  · exact hfree.trans (by decide +kernel)

end FleetOS
