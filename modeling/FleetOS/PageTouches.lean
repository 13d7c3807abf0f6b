import Mathlib.Data.List.MinMax
import FleetOS.PageTables

/-!
# Addresses and touches

Two laws of `mem_access` at every address, and both have the same exception.

* A translated address lies in the frame of its page. C divides towards zero, so the addresses
  from `-255` to `-1` get page `0` with a negative offset : there, and nowhere else, the law can
  fail (`memAccess_within_frame_iff`).
* The frame that is evicted holds the page touched longest ago. `Touch` is the history of a run,
  newest first; `Touched` says that `last_access` of a resident page's frame is the tick of the
  page's last touch, and is kept by every step without such an address (`Touched.step`).
  `evict_least_recently_touched` reads the choice of the victim off it.
-/

namespace FleetOS

/-! ## Translation -/

/-- `addr` is in `page`. -/
def InPage (addr page : ℤ) : Prop := page * pageSize ≤ addr ∧ addr < (page + 1) * pageSize

instance (addr page : ℤ) : Decidable (InPage addr page) := inferInstanceAs (Decidable (_ ∧ _))

/-- The negative addresses that the division takes to page `0`. -/
def Truncated (addr : ℤ) : Prop := -pageSize < addr ∧ addr < 0

instance (addr : ℤ) : Decidable (Truncated addr) := inferInstanceAs (Decidable (_ ∧ _))

theorem inPage_iff {addr page : ℤ} : InPage addr page ↔ addr / pageSize = page := by
  unfold InPage pageSize
  omega

theorem Truncated.tdiv {addr : ℤ} (h : Truncated addr) : addr.tdiv pageSize = 0 := by
  have hneg : (-addr).tdiv pageSize = 0 := by
    rw [Int.tdiv_eq_ediv_of_nonneg (by unfold Truncated at h; omega)]
    unfold Truncated pageSize at *
    omega
  rw [Int.neg_tdiv] at hneg
  omega

theorem Truncated.tmod {addr : ℤ} (h : Truncated addr) : addr.tmod pageSize = addr := by
  have hdiv := Int.mul_tdiv_add_tmod addr pageSize
  rw [h.tdiv] at hdiv
  omega

/-- A negative address that the division does not take to page `0` has a negative page. -/
theorem tdiv_neg {addr : ℤ} (hneg : addr < 0) (h : ¬Truncated addr) :
    addr.tdiv pageSize < 0 := by
  have hdiv : (-addr).tdiv pageSize = -addr / pageSize :=
    Int.tdiv_eq_ediv_of_nonneg (by omega)
  rw [Int.neg_tdiv] at hdiv
  unfold Truncated pageSize at *
  omega

/-- What an access at an address outside the truncated range does. -/
theorem memAccess_eq (m : PhysicalMemory) (pcb : PCB) {addr : ℤ} (h : ¬Truncated addr) :
    memAccess m pcb addr =
      if addr / pageSize ∈ pageIndices then
        if pcb.pageTable (addr / pageSize) = -1 then ⟨m, -1, some (addr / pageSize)⟩
        else
          ⟨{ m with lastAccess :=
              Function.update m.lastAccess (pcb.pageTable (addr / pageSize)) m.currentTick },
            pcb.pageTable (addr / pageSize) * pageSize + addr % pageSize, none⟩
      else ⟨m, -1, none⟩ := by
  by_cases hneg : addr < 0
  · have hdiv := tdiv_neg hneg h
    have hout : addr / pageSize ∉ pageIndices := by
      rw [mem_pageIndices]
      unfold pageSize
      omega
    simp only [memAccess, hdiv, true_or, if_true, hout, if_false]
  · have hdiv : addr.tdiv pageSize = addr / pageSize := Int.tdiv_eq_ediv_of_nonneg (by omega)
    have hmod : addr.tmod pageSize = addr % pageSize := Int.tmod_eq_emod_of_nonneg (by omega)
    have hrange : (addr / pageSize < 0 ∨ (maxPages : ℤ) ≤ addr / pageSize) ↔
        addr / pageSize ∉ pageIndices := by
      rw [mem_pageIndices]
      omega
    simp only [memAccess, hdiv, hmod, hrange, ite_not]

theorem memAccess_truncated {m : PhysicalMemory} {pcb : PCB} {addr : ℤ} (h : Truncated addr) :
    memAccess m pcb addr =
      if pcb.pageTable 0 = -1 then ⟨m, -1, some 0⟩
      else
        ⟨{ m with lastAccess := Function.update m.lastAccess (pcb.pageTable 0) m.currentTick },
          pcb.pageTable 0 * pageSize + addr, none⟩ := by
  have hrange : ¬((0 : ℤ) < 0 ∨ (maxPages : ℤ) ≤ 0) := by decide
  simp only [memAccess, h.tdiv, h.tmod, hrange, if_false]

/-- The entries of a page table are `-1` or frames. -/
def ValidEntries (pcb : PCB) : Prop :=
  ∀ page ∈ pageIndices, pcb.pageTable page = -1 ∨ pcb.pageTable page ∈ frameIndices

/-- The result is the fault value, or it lies in the frame of the page that `addr` is in. -/
def WithinFrame (pcb : PCB) (addr ret : ℤ) : Prop :=
  ret = -1 ∨ ∃ page ∈ pageIndices, InPage addr page ∧ pcb.pageTable page ∈ frameIndices ∧
    pcb.pageTable page * pageSize ≤ ret ∧ ret < (pcb.pageTable page + 1) * pageSize

instance (pcb : PCB) (addr ret : ℤ) : Decidable (WithinFrame pcb addr ret) :=
  inferInstanceAs (Decidable (_ ∨ _))

/-- An access stays within the frame of its page except at a truncated address with page `0`
mapped; `-1` then still comes out right when page `0` is in frame `0`. -/
theorem memAccess_within_frame_iff (m : PhysicalMemory) {pcb : PCB} (hvalid : ValidEntries pcb)
    (addr : ℤ) :
    WithinFrame pcb addr (memAccess m pcb addr).ret ↔
      ¬(-pageSize < addr ∧ addr < 0 ∧ pcb.pageTable 0 ≠ -1 ∧
        ¬(pcb.pageTable 0 = 0 ∧ addr = -1)) := by
  by_cases h : Truncated addr
  · rw [memAccess_truncated h]
    obtain ⟨hlow, hneg⟩ := h
    have hout : ∀ page ∈ pageIndices, ¬InPage addr page := by
      intro page hpage hin
      have := (mem_pageIndices.mp hpage).1
      have := inPage_iff.mp hin
      unfold pageSize at this
      omega
    have hframe : pcb.pageTable 0 = -1 ∨ 0 ≤ pcb.pageTable 0 :=
      (hvalid 0 (by decide)).imp_right fun hf => (mem_frameIndices.mp hf).1
    constructor
    · rintro (hret | ⟨page, hpage, hin, -⟩)
      · rintro ⟨-, -, hmapped, hexc⟩
        rw [if_neg hmapped] at hret
        dsimp only at hret
        unfold pageSize at *
        omega
      · exact absurd hin (hout page hpage)
    · intro hexc
      left
      split_ifs with hun
      · rfl
      · dsimp only
        unfold pageSize at *
        omega
  · refine iff_of_true ?_ fun hexc => h ⟨hexc.1, hexc.2.1⟩
    rw [memAccess_eq m pcb h]
    split_ifs with hpage hun
    · exact Or.inl rfl
    · refine Or.inr ⟨_, hpage, inPage_iff.mpr rfl, (hvalid _ hpage).resolve_left hun, ?_⟩
      unfold pageSize
      dsimp only
      omega
    · exact Or.inl rfl

/-- A process that has page `0` in the given frame and no other page. -/
def onePage (frame : ℤ) : PCB :=
  { pcbCreate 1 [] .normal with pageTable := fun page => if page = 0 then frame else -1 }

/-- Frame `2` may belong to anybody; from frame `0` the result is negative and no fault. -/
theorem memAccess_below_frame :
    let m : PhysicalMemory := ⟨fun _ => 1, fun _ => 0, fun _ => 0, 0, 0⟩
    (ValidEntries (onePage 3) ∧ (memAccess m (onePage 3) (-5)).ret = 763 ∧
      ¬WithinFrame (onePage 3) (-5) (memAccess m (onePage 3) (-5)).ret) ∧
    ValidEntries (onePage 0) ∧ (memAccess m (onePage 0) (-5)).ret = -5 ∧
      ¬WithinFrame (onePage 0) (-5) (memAccess m (onePage 0) (-5)).ret := by
  unfold ValidEntries
  decide +kernel

theorem memAccess_within_frame_iff_held :
    let m : PhysicalMemory := ⟨fun _ => 1, fun _ => 0, fun _ => 0, 0, 0⟩
    WithinFrame (onePage 3) 200 (memAccess m (onePage 3) 200).ret :=
  (memAccess_within_frame_iff _ (by unfold ValidEntries; decide +kernel) 200).mpr (by decide +kernel)

/-! ## The history of touches -/

/-- A page of a process, and the tick it was touched at. -/
abbrev Touch := (ℕ × ℤ) × ℤ

/-- The page that a step touches : the one it maps, or the one whose address it translates. -/
def touched {n : ℕ} (s : PhysicalMemory × (ℕ → PCB)) : MemStep n → Option (ℕ × ℤ)
  | .setTick _ => none
  | .fault p page =>
    if (s.2 p).pageTable page = -1 ∧ ((memStep s (.fault p page)).2 p).pageTable page ≠ -1 then
      some (p, page)
    else none
  | .access p addr =>
    if (memAccess s.1 (s.2 p) addr).ret ≠ -1 then some (p, addr / pageSize) else none
  | .free _ => none

/-- The touches of a run, newest first, after those of `hist`. -/
def touches {n : ℕ} (s : PhysicalMemory × (ℕ → PCB)) (hist : List Touch) :
    List (MemStep n) → List Touch
  | [] => hist
  | step :: steps =>
    touches (memStep s step)
      (((touched s step).map fun page => (page, s.1.currentTick)).toList ++ hist) steps

/-- No access is at a truncated address while page `0` is mapped. -/
def InRange {n : ℕ} (s : PhysicalMemory × (ℕ → PCB)) : MemStep n → Prop
  | .access p addr => Truncated addr → (s.2 p).pageTable 0 = -1
  | _ => True

def RunInRange {n : ℕ} (s : PhysicalMemory × (ℕ → PCB)) : List (MemStep n) → Prop
  | [] => True
  | step :: steps => InRange s step ∧ RunInRange (memStep s step) steps

/-- A run whose accesses are at addresses of pages, like the kernel's own. -/
theorem runInRange_of_forall {n : ℕ} (steps : List (MemStep n)) :
    ∀ s, (∀ p addr, .access p addr ∈ steps → ¬Truncated addr) → RunInRange s steps := by
  induction steps with
  | nil => exact fun _ _ => trivial
  | cons step steps ih =>
    intro s h
    refine ⟨?_, ih _ fun p addr hmem => h p addr (List.mem_cons_of_mem step hmem)⟩
    cases step with
    | access p addr => exact fun htr => absurd htr (h p addr List.mem_cons_self)
    | setTick _ => trivial
    | fault _ _ => trivial
    | free _ => trivial

/-- The frame of a resident page was accessed when the page was last touched. -/
def Touched (s : PhysicalMemory × (ℕ → PCB)) (hist : List Touch) (n : ℕ) : Prop :=
  ∀ p < n, ∀ page ∈ pageIndices, (s.2 p).pageTable page ≠ -1 →
    hist.lookup (p, page) = some (s.1.lastAccess ((s.2 p).pageTable page))

theorem lookup_cons_ne {page page' : ℕ × ℤ} {tick : ℤ} {hist : List Touch} (h : page' ≠ page) :
    List.lookup page' ((page, tick) :: hist) = hist.lookup page' := by
  rw [List.lookup_cons, beq_false_of_ne h]

/-- A page that gets frame `f` was touched now, and the others are where they were. -/
theorem Touched.map {m m' : PhysicalMemory} {procs procs' : ℕ → PCB} {hist : List Touch} {n p : ℕ}
    {page f : ℤ} (h : Touched (m, procs) hist n) (hmap : Mapping m procs n)
    (hmap' : Mapping m' procs' n) (hpids : PidTable procs n) (hp : p < n)
    (hf : f ∈ frameIndices) (hpid : ∀ i, (procs' i).pid = (procs i).pid)
    (hframes : m'.frames = Function.update m.frames f (procs p).pid)
    (hpages : m'.framePages = Function.update m.framePages f page)
    (hlast : m'.lastAccess = Function.update m.lastAccess f m.currentTick) :
    Touched (m', procs') (((p, page), m.currentTick) :: hist) n := by
  intro i hi x hx hres
  have hg := (hmap'.entry i hi x hx).resolve_left hres
  set g := (procs' i).pageTable x with hgdef
  obtain ⟨hown, hpage⟩ := (hmap'.agree g hg i hi x hx).mpr hgdef.symm
  rw [hframes, hpid] at hown
  rw [hpages] at hpage
  dsimp only
  rw [hlast]
  by_cases hgf : g = f
  · rw [hgf, Function.update_self] at hown hpage
    rw [hpids.distinct i hi p hp hown.symm, ← hpage, List.lookup_cons_self, hgf,
      Function.update_self]
  · rw [Function.update_of_ne hgf] at hown hpage
    have hold : (procs i).pageTable x = g := (hmap.agree g hg i hi x hx).mp ⟨hown, hpage⟩
    have hne : (i, x) ≠ (p, page) := by
      intro he
      obtain ⟨hip, hxp⟩ := Prod.mk.injEq .. ▸ he
      have hnew := (hmap'.agree f hf i hi x hx).mp
        ⟨by rw [hframes, hpid, hip, Function.update_self],
          by rw [hpages, hxp, Function.update_self]⟩
      exact hgf (hgdef.trans hnew)
    rw [lookup_cons_ne hne, Function.update_of_ne hgf, ← hold]
    refine h i hi x hx ?_
    rw [hold]
    exact hres

theorem Touched.fault {s : PhysicalMemory × (ℕ → PCB)} {hist : List Touch} {n : ℕ}
    (h : Touched s hist n) (hmap : Mapping s.1 s.2 n) (hpids : PidTable s.2 n) (p : Fin n)
    (page : ℤ) :
    Touched (memStep s (.fault p page))
      (((touched s (.fault p page)).map fun page => (page, s.1.currentTick)).toList ++ hist) n := by
  have hmap' := hmap.resolve hpids p.isLt page
  have hpid := resolvePageFault_pid s.1 s.2 n p page
  rcases resolvePageFault_cases s.1 s.2 n p page with
    he | ⟨hpage, hun, hcase⟩
  · have hstep : memStep s (.fault p page) = s := he
    have hnone : touched s (.fault p page) = none := by
      simp only [touched, hstep]
      exact if_neg fun hc => hc.2 hc.1
    rw [hstep, hnone]
    exact h
  · obtain ⟨f, hf, hframes, hpages, hlast⟩ : ∃ f ∈ frameIndices,
        (resolvePageFault s.1 s.2 n p page).1.frames =
          Function.update s.1.frames f (s.2 p).pid ∧
        (resolvePageFault s.1 s.2 n p page).1.framePages =
          Function.update s.1.framePages f page ∧
        (resolvePageFault s.1 s.2 n p page).1.lastAccess =
          Function.update s.1.lastAccess f s.1.currentTick := by
      rcases hcase with ⟨f, hf, -, he⟩ | ⟨f, hf, -, he⟩
      · exact ⟨f, hf, by rw [he]; rfl, by rw [he]; rfl, by rw [he]; rfl⟩
      · exact ⟨f, hf, by rw [he]; rfl, by rw [he]; rfl, by rw [he]; rfl⟩
    have hnew : ((resolvePageFault s.1 s.2 n p page).2 p).pageTable page = f :=
      (hmap'.agree f hf p p.isLt page hpage).mp
        ⟨by rw [hframes, hpid, Function.update_self], by rw [hpages, Function.update_self]⟩
    have hsome : touched s (.fault p page) = some (↑p, page) := by
      have hf0 := (mem_frameIndices.mp hf).1
      refine if_pos ⟨hun, ?_⟩
      simp only [memStep, hnew]
      omega
    rw [hsome]
    exact h.map hmap hmap' hpids p.isLt hf hpid hframes hpages hlast

theorem Touched.access {s : PhysicalMemory × (ℕ → PCB)} {hist : List Touch} {n : ℕ}
    (h : Touched s hist n) (hmap : Mapping s.1 s.2 n) (hpids : PidTable s.2 n) (p : Fin n)
    (addr : ℤ) (hin : InRange s (.access p addr)) :
    Touched (memStep s (.access p addr))
      (((touched s (.access p addr)).map fun page => (page, s.1.currentTick)).toList ++ hist) n := by
  -- a refused access changes nothing and is no touch
  have hrefused : ∀ fault, memAccess s.1 (s.2 p) addr = ⟨s.1, -1, fault⟩ →
      Touched (memStep s (.access p addr))
        (((touched s (.access p addr)).map fun page => (page, s.1.currentTick)).toList ++ hist)
        n := by
    intro fault he
    have hstep : memStep s (.access p addr) = s := by simp only [memStep, he]
    have hnone : touched s (.access p addr) = none := by
      simp only [touched, he]
      exact if_neg fun hc => hc rfl
    rw [hstep, hnone]
    exact h
  by_cases htr : Truncated addr
  · refine hrefused (some 0) ?_
    rw [memAccess_truncated htr, if_pos (hin htr)]
  have haccess := memAccess_eq s.1 (s.2 p) htr
  split_ifs at haccess with hpage hun
  · exact hrefused _ haccess
  · have hframe := (hmap.entry p p.isLt _ hpage).resolve_left hun
    have hsome : touched s (.access p addr) = some (↑p, addr / pageSize) := by
      have hf0 := (mem_frameIndices.mp hframe).1
      refine if_pos ?_
      rw [haccess]
      unfold pageSize at *
      dsimp only
      omega
    have hstep : memStep s (.access p addr) =
        ({ s.1 with lastAccess :=
            Function.update s.1.lastAccess ((s.2 p).pageTable (addr / pageSize)) s.1.currentTick },
          s.2) := by
      simp only [memStep, haccess]
    rw [hsome, hstep]
    intro i hi x hx hres
    by_cases hsame : (i, x) = (↑p, addr / pageSize)
    · obtain ⟨hip, hxp⟩ := Prod.mk.injEq .. ▸ hsame
      rw [hip, hxp]
      dsimp only [Option.map_some, Option.toList_some, List.singleton_append]
      rw [List.lookup_cons_self, Function.update_self]
    · dsimp only [Option.map_some, Option.toList_some, List.singleton_append] at hres ⊢
      rw [lookup_cons_ne hsame, Function.update_of_ne]
      · exact h i hi x hx hres
      · -- two pages in one frame would be the same page
        intro he
        obtain ⟨hown, hpg⟩ := (hmap.agree _ hframe i hi x hx).mpr he
        obtain ⟨hown', hpg'⟩ := (hmap.agree _ hframe p p.isLt _ hpage).mpr rfl
        exact hsame (Prod.ext (hpids.distinct i hi p p.isLt (hown.symm.trans hown'))
          (hpg.symm.trans hpg'))
  · exact hrefused _ haccess

theorem Touched.free {s : PhysicalMemory × (ℕ → PCB)} {hist : List Touch} {n : ℕ}
    (h : Touched s hist n) (p : Fin n) : Touched (memStep s (.free p)) hist n := by
  intro i hi x hx hres
  by_cases hip : i = p
  · rw [hip] at hres
    simp only [memStep, Function.update_self] at hres
    exact absurd rfl hres
  · simp only [memStep, Function.update_of_ne hip] at hres ⊢
    exact h i hi x hx hres

theorem Touched.step {s : PhysicalMemory × (ℕ → PCB)} {hist : List Touch} {n : ℕ}
    (h : Touched s hist n) (hmap : Mapping s.1 s.2 n) (hpids : PidTable s.2 n) (step : MemStep n)
    (hin : InRange s step) :
    Touched (memStep s step)
      (((touched s step).map fun page => (page, s.1.currentTick)).toList ++ hist) n := by
  cases step with
  | setTick tick => exact h
  | fault p page => exact h.fault hmap hpids p page
  | access p addr => exact h.access hmap hpids p addr hin
  | free p => exact h.free p

theorem Touched.run {n : ℕ} (steps : List (MemStep n)) {s : PhysicalMemory × (ℕ → PCB)}
    {hist : List Touch} (h : Touched s hist n) (hmap : Mapping s.1 s.2 n) (hpids : PidTable s.2 n)
    (hin : RunInRange s steps) : Touched (memRun s steps) (touches s hist steps) n := by
  induction steps generalizing s hist with
  | nil => exact h
  | cons step steps ih =>
    exact ih (h.step hmap hpids step hin.1) (mapping_memStep hmap hpids step)
      (hpids.congr (memStep_pid s step)) hin.2

/-! ## The victim -/

/-- The code's scan is the first-smallest scan of the frames. -/
theorem argmin_lastAccess (m : PhysicalMemory) :
    frameIndices.argmin m.lastAccess = some (selectLruVictim m) := by
  have hscan : ∀ (l : List ℤ) (a : ℤ),
      l.foldl (List.argAux fun b c => m.lastAccess b < m.lastAccess c) (some a) =
        some (l.foldl (fun oldest i => if m.lastAccess i < m.lastAccess oldest then i else oldest)
          a) := by
    intro l
    induction l with
    | nil => exact fun _ => rfl
    | cons i l ih =>
      intro a
      rw [List.foldl_cons, List.foldl_cons, ← ih]
      congr 1
      simp only [List.argAux]
      split_ifs <;> rfl
  exact hscan frameIndices.tail 0

theorem idxOf_frameIndices : ∀ f ∈ frameIndices, frameIndices.idxOf f = f.toNat := by decide

theorem selectLruVictim_least (m : PhysicalMemory) {f : ℤ} (hf : f ∈ frameIndices) :
    m.lastAccess (selectLruVictim m) ≤ m.lastAccess f :=
  List.le_of_mem_argmin hf (argmin_lastAccess m)

theorem selectLruVictim_first (m : PhysicalMemory) {f : ℤ} (hf : f ∈ frameIndices)
    (h : m.lastAccess f ≤ m.lastAccess (selectLruVictim m)) : selectLruVictim m ≤ f := by
  have hidx := (List.mem_argmin_iff.mp (argmin_lastAccess m)).2.2 f hf h
  rw [idxOf_frameIndices _ hf, idxOf_frameIndices _ (selectLruVictim_mem m)] at hidx
  have := (mem_frameIndices.mp hf).1
  have := (mem_frameIndices.mp (selectLruVictim_mem m)).1
  omega

def Resident (procs : ℕ → PCB) (n p : ℕ) (page : ℤ) : Prop :=
  p < n ∧ page ∈ pageIndices ∧ (procs p).pageTable page ≠ -1

/-- Of the resident pages, `v` of process `q` was touched first, and of those touched in the same
tick it is in the lowest frame. -/
def LeastRecent (procs : ℕ → PCB) (n : ℕ) (hist : List Touch) (q : ℕ) (v : ℤ) : Prop :=
  Resident procs n q v ∧ ∃ t, hist.lookup (q, v) = some t ∧
    ∀ i x, Resident procs n i x → ∃ t', hist.lookup (i, x) = some t' ∧
      (t < t' ∨ t = t' ∧ (procs q).pageTable v ≤ (procs i).pageTable x)

theorem findFreeFrame_full {m : PhysicalMemory} (h : ∀ f ∈ frameIndices, m.frames f ≠ -1) :
    findFreeFrame m = -1 := by
  rcases findFreeFrame_cases m with ⟨hnone, -⟩ | ⟨hf, hfree⟩
  · exact hnone
  · exact absurd hfree (h _ hf)

theorem findFreeFrame_free {m : PhysicalMemory} (h : ∃ f ∈ frameIndices, m.frames f = -1) :
    findFreeFrame m ∈ frameIndices := by
  obtain ⟨f, hf, hfree⟩ := h
  rcases findFreeFrame_cases m with ⟨-, hfull⟩ | ⟨hf', -⟩
  · exact absurd hfree (hfull f hf)
  · exact hf'

/-- The frame that the scan picks holds the page touched first. -/
theorem Touched.victim {m : PhysicalMemory} {procs : ℕ → PCB} {hist : List Touch} {n : ℕ}
    (h : Touched (m, procs) hist n) (hmap : Mapping m procs n)
    (hfull : ∀ f ∈ frameIndices, m.frames f ≠ -1) :
    ∃ q, m.frames (selectLruVictim m) = (procs q).pid ∧
      (procs q).pageTable (m.framePages (selectLruVictim m)) = selectLruVictim m ∧
      LeastRecent procs n hist q (m.framePages (selectLruVictim m)) := by
  have hf := selectLruVictim_mem m
  have hf0 := (mem_frameIndices.mp hf).1
  obtain ⟨q, hq, hown, hv⟩ := (hmap.owner _ hf).resolve_left (hfull _ hf)
  have hqv := (hmap.agree _ hf q hq _ hv).mp ⟨hown, rfl⟩
  have hres : (procs q).pageTable (m.framePages (selectLruVictim m)) ≠ -1 := by omega
  refine ⟨q, hown, hqv, ⟨hq, hv, hres⟩, _, h q hq _ hv hres, fun i x ⟨hi, hx, hix⟩ => ?_⟩
  refine ⟨_, h i hi x hx hix, ?_⟩
  dsimp only
  rw [hqv]
  have hg := (hmap.entry i hi x hx).resolve_left hix
  rcases (selectLruVictim_least m hg).lt_or_eq with hlt | heq
  · exact Or.inl hlt
  · exact Or.inr ⟨heq, selectLruVictim_first m hg heq.symm.le⟩

/-- After any steps of fresh processes without a truncated access, an allocation that finds no
free frame takes the page touched first, and one that finds a free frame takes no page. -/
theorem evict_least_recently_touched (m₀ : PhysicalMemory) {procs : ℕ → PCB} {n : ℕ}
    (hpids : PidTable procs n) (hfresh : ∀ p < n, (procs p).Fresh) (steps : List (MemStep n))
    (hin : RunInRange (memInit m₀, procs) steps) (p : Fin n) {page : ℤ} (hpage : page ∈ pageIndices)
    (ei : EvictionInfo) :
    let s := memRun (memInit m₀, procs) steps
    let r := memAllocatePage s.1 (s.2 p) page ei
    (s.2 p).pageTable page = -1 →
      ((∀ f ∈ frameIndices, s.1.frames f ≠ -1) → r.eviction.evicted = true ∧
        ∃ q, r.eviction.victimPid = (s.2 q).pid ∧
          (s.2 q).pageTable r.eviction.victimPage = r.eviction.frame ∧
          LeastRecent s.2 n (touches (memInit m₀, procs) [] steps) q r.eviction.victimPage) ∧
      ((∃ f ∈ frameIndices, s.1.frames f = -1) → r.eviction.evicted = false ∧
        ∀ i x, (i, x) ≠ (↑p, page) →
          ((memStep s (.fault p page)).2 i).pageTable x = (s.2 i).pageTable x) := by
  intro s r hun
  have hinit := mapping_memInit m₀ hpids.framePids (fun p hp => (hfresh p hp).1) fun p hp => (hfresh p hp).2
  have hmap : Mapping s.1 s.2 n := mapping_memRun (s := (memInit m₀, procs)) hinit hpids steps
  have hpids' : PidTable s.2 n := hpids.congr (memRun_pid (memInit m₀, procs) steps)
  have hstart : Touched (memInit m₀, procs) [] n := by
    intro i hi x _ hres
    exact absurd (congrFun (hfresh i hi).1 x) hres
  have h := hstart.run steps hinit hpids hin
  have hrange : ¬(page < 0 ∨ (maxPages : ℤ) ≤ page) := by
    have := mem_pageIndices.mp hpage
    omega
  constructor
  · intro hfull
    have hr : r.eviction = ⟨true, s.1.frames (selectLruVictim s.1),
        s.1.framePages (selectLruVictim s.1), selectLruVictim s.1⟩ := by
      simp [r, memAllocatePage, hrange, hun, findFreeFrame_full hfull]
    rw [hr]
    exact ⟨rfl, h.victim hmap hfull⟩
  · intro hfree
    have hneg : ¬findFreeFrame s.1 < 0 := by
      have := (mem_frameIndices.mp (findFreeFrame_free hfree)).1
      omega
    have hr : r.eviction.evicted = false := by
      simp [r, memAllocatePage, hrange, hun, hneg]
    refine ⟨hr, fun i x hne => ?_⟩
    have hstep : (memStep s (.fault p page)).2 = mapped s.2 p page (findFreeFrame s.1) := by
      simp [memStep, resolvePageFault, memAllocatePage, hrange, hun, hneg, mapPage, mapped,
        repairVictim]
    rw [hstep, mapped_pageTable, if_neg]
    rintro ⟨rfl, rfl⟩
    exact hne rfl

/-- A table of new processes. -/
def freshProcs (i : ℕ) : PCB := pcbCreate i [] .normal

theorem pidTable_freshProcs (n : ℕ) : PidTable freshProcs n :=
  ⟨fun i _ j _ he => by simpa [freshProcs, pcbCreate] using he,
    fun p _ => by simp [freshProcs, pcbCreate]⟩

/-- Process `0` fills the memory in tick `1`. -/
def fillSteps : List (MemStep 2) :=
  .setTick 1 :: (List.range 16).map fun page => .fault 0 page

/-- The access at `-1` is refused, but frame `0` counts as accessed, and frame `1` is taken in its
place. -/
theorem evict_after_refused_access :
    let s₀ := (memInit ⟨fun _ => 0, fun _ => 0, fun _ => 0, 0, 0⟩, freshProcs)
    let s := memRun s₀ (fillSteps ++ [.setTick 2])
    let s' := memRun s₀ (fillSteps ++ [.setTick 2, .access 0 (-1)])
    let hist := touches s₀ [] (fillSteps ++ [.setTick 2, .access 0 (-1)])
    let r := memAllocatePage s'.1 (s'.2 1) 0 ⟨false, 0, 0, 0⟩
    (memAccess s.1 (s.2 0) (-1)).ret = -1 ∧ (∀ f ∈ frameIndices, s'.1.frames f ≠ -1) ∧
      (s'.2 1).pageTable 0 = -1 ∧ r.eviction.victimPid = 0 ∧ r.eviction.victimPage = 1 ∧
      ¬LeastRecent s'.2 2 hist 0 1 := by
  intro s₀ s s' hist r
  have hret : (memAccess s.1 (s.2 0) (-1)).ret = -1 := by decide +kernel
  have hfull : ∀ f ∈ frameIndices, s'.1.frames f ≠ -1 := by decide +kernel
  have hun : (s'.2 1).pageTable 0 = -1 := by decide +kernel
  have hpid : r.eviction.victimPid = 0 := by decide +kernel
  have hpage : r.eviction.victimPage = 1 := by decide +kernel
  refine ⟨hret, hfull, hun, hpid, hpage, fun hleast => ?_⟩
  have hzero : (s'.2 0).pageTable 0 = 0 := by decide +kernel
  have hone : (s'.2 0).pageTable 1 = 1 := by decide +kernel
  have htick : hist.lookup (0, 1) = some 1 := by decide +kernel
  have htick' : hist.lookup (0, 0) = some 1 := by decide +kernel
  obtain ⟨-, t, ht, hmin⟩ := hleast
  obtain ⟨t', ht', hle⟩ := hmin 0 0 ⟨by decide, by decide, by rw [hzero]; decide⟩
  rw [htick, Option.some_inj] at ht
  rw [htick', Option.some_inj] at ht'
  rw [hzero, hone] at hle
  omega

/-- Page `0` is touched again, so page `1` goes. -/
theorem evict_least_recently_touched_filled :
    let s := memRun (memInit ⟨fun _ => 0, fun _ => 0, fun _ => 0, 0, 0⟩, freshProcs)
      (fillSteps ++ [.setTick 2, .access 0 5])
    let hist := touches (memInit ⟨fun _ => 0, fun _ => 0, fun _ => 0, 0, 0⟩, freshProcs) []
      (fillSteps ++ [.setTick 2, .access 0 5])
    let r := memAllocatePage s.1 (s.2 1) 0 ⟨false, 0, 0, 0⟩
    r.eviction.victimPage = 1 ∧ ∃ q, LeastRecent s.2 2 hist q 1 := by
  intro s hist r
  have hin : RunInRange (memInit ⟨fun _ => 0, fun _ => 0, fun _ => 0, 0, 0⟩, freshProcs)
      (fillSteps ++ [.setTick 2, .access 0 5]) := by
    refine runInRange_of_forall _ _ fun p addr hmem => ?_
    have haddr : p = 0 ∧ addr = 5 := by simpa [fillSteps] using hmem
    rw [haddr.2]
    decide
  have hun : (s.2 1).pageTable 0 = -1 := by decide +kernel
  have hfull : ∀ f ∈ frameIndices, s.1.frames f ≠ -1 := by decide +kernel
  have hpage : r.eviction.victimPage = 1 := by decide +kernel
  have h := (evict_least_recently_touched ⟨fun _ => 0, fun _ => 0, fun _ => 0, 0, 0⟩
    (pidTable_freshProcs 2) (fun _ _ => ⟨rfl, rfl⟩) (fillSteps ++ [.setTick 2, .access 0 5]) hin 1
    (by decide) ⟨false, 0, 0, 0⟩ hun).1 hfull
  obtain ⟨-, q, -, -, hleast⟩ := h
  rw [← hpage]
  exact ⟨rfl, q, hleast⟩

end FleetOS
