import FleetOS.Process

/-!
# Paging

`memory.c` : the frame table, page allocation with LRU eviction, address translation and the
release of a process's frames; with the kernel's part of an eviction (`complete_page_faults`),
which clears the victim's page table entry.

Frames, pages and addresses are C `int`s. The frame table and the page tables are functions
of the index; the code uses them from `0` up to `FRAME_COUNT` and `MAX_PAGES`.
-/

namespace FleetOS

def pageSize : ℤ := 256
def frameCount : ℕ := 16
def maxPages : ℕ := 16

structure PhysicalMemory where
  /-- The pid that owns a frame, `-1` for a free frame. -/
  frames : ℤ → ℤ
  framePages : ℤ → ℤ
  lastAccess : ℤ → ℤ
  freeFrameCount : ℤ
  currentTick : ℤ

/-- What an allocation tells its caller about an eviction. -/
structure EvictionInfo where
  evicted : Bool
  victimPid : ℤ
  victimPage : ℤ
  frame : ℤ

def frameIndices : List ℤ := (List.range frameCount).map fun i : ℕ => (i : ℤ)
def pageIndices : List ℤ := (List.range maxPages).map fun i : ℕ => (i : ℤ)

def memInit (m : PhysicalMemory) : PhysicalMemory :=
  { m with
    frames := fun _ => -1
    framePages := fun _ => -1
    lastAccess := fun _ => 0
    freeFrameCount := frameCount
    currentTick := 0 }

def memSetTick (m : PhysicalMemory) (tick : ℤ) : PhysicalMemory := { m with currentTick := tick }

/-- The lowest free frame, `-1` if there is none. -/
def findFreeFrame (m : PhysicalMemory) : ℤ :=
  (frameIndices.find? fun i => m.frames i = -1).getD (-1)

/-- The frame accessed longest ago, the lowest of them on a tie. -/
def selectLruVictim (m : PhysicalMemory) : ℤ :=
  frameIndices.tail.foldl
    (fun oldest i => if m.lastAccess i < m.lastAccess oldest then i else oldest) 0

structure AllocResult where
  mem : PhysicalMemory
  pcb : PCB
  /-- What the caller's `EvictionInfo` holds afterwards. -/
  eviction : EvictionInfo
  ret : ℤ

/-- The frame table and the page table once `frame` is chosen for `page`. -/
def mapPage (m : PhysicalMemory) (pcb : PCB) (page frame : ℤ) : PhysicalMemory × PCB :=
  ({ m with
      frames := Function.update m.frames frame pcb.pid
      framePages := Function.update m.framePages frame page
      lastAccess := Function.update m.lastAccess frame m.currentTick },
    { pcb with
      pageTable := Function.update pcb.pageTable page frame
      pagesUsed := pcb.pagesUsed + 1 })

/-- `eviction` is what the caller's record holds before the call; a caller that passes a null
pointer does not see the result. -/
def memAllocatePage (m : PhysicalMemory) (pcb : PCB) (page : ℤ) (eviction : EvictionInfo) :
    AllocResult :=
  if page < 0 ∨ maxPages ≤ page then ⟨m, pcb, eviction, -1⟩
  else if pcb.pageTable page ≠ -1 then ⟨m, pcb, ⟨false, -1, -1, -1⟩, pcb.pageTable page⟩
  else
    let frame := findFreeFrame m
    if frame < 0 then
      let frame := selectLruVictim m
      let (mem, pcb) := mapPage m pcb page frame
      ⟨mem, pcb, ⟨true, m.frames frame, m.framePages frame, frame⟩, frame⟩
    else
      let (mem, pcb) := mapPage { m with freeFrameCount := m.freeFrameCount - 1 } pcb page frame
      ⟨mem, pcb, ⟨false, -1, -1, -1⟩, frame⟩

structure AccessResult where
  mem : PhysicalMemory
  ret : ℤ
  /-- `*fault_page`, where the call writes it. -/
  faultPage : Option ℤ

def memAccess (m : PhysicalMemory) (pcb : PCB) (virtualAddr : ℤ) : AccessResult :=
  let page := virtualAddr.tdiv pageSize
  let offset := virtualAddr.tmod pageSize
  if page < 0 ∨ maxPages ≤ page then ⟨m, -1, none⟩
  else if pcb.pageTable page = -1 then ⟨m, -1, some page⟩
  else
    let frame := pcb.pageTable page
    ⟨{ m with lastAccess := Function.update m.lastAccess frame m.currentTick },
      frame * pageSize + offset, none⟩

/-- The loop treats every frame on its own. -/
def memFreeProcess (m : PhysicalMemory) (pcb : PCB) : PhysicalMemory × PCB :=
  ({ m with
      frames := fun i => if m.frames i = pcb.pid then -1 else m.frames i
      framePages := fun i => if m.frames i = pcb.pid then -1 else m.framePages i
      freeFrameCount :=
        m.freeFrameCount + frameIndices.countP fun i => m.frames i = pcb.pid },
    { pcb with pageTable := fun _ => -1, pagesUsed := 0 })

def memGetPageCount (pcb : PCB) : ℤ := pageIndices.countP fun i => pcb.pageTable i ≠ -1

/-! ## The kernel's part -/

/-- After an eviction the kernel clears the page table entry of the victim. -/
def repairVictim (procs : ℕ → PCB) (n : ℕ) (ei : EvictionInfo) : ℕ → PCB :=
  if ei.evicted then
    match findProc procs n ei.victimPid with
    | none => procs
    | some v =>
      if 0 ≤ ei.victimPage then
        Function.update procs v { procs v with
          pageTable := Function.update (procs v).pageTable ei.victimPage (-1)
          pagesUsed := (procs v).pagesUsed - 1 }
      else procs
  else procs

/-- The memory side of one completed page fault in `complete_page_faults`. -/
def resolvePageFault (m : PhysicalMemory) (procs : ℕ → PCB) (n p : ℕ) (page : ℤ) :
    PhysicalMemory × (ℕ → PCB) :=
  let r := memAllocatePage m (procs p) page ⟨false, 0, 0, 0⟩
  (r.mem, repairVictim (Function.update procs p r.pcb) n r.eviction)

end FleetOS
