import MeetiX.Base.Action
import MeetiX.Kernel.Memory.AddressRangePool

/-! Physical pages, their reference counts and the page tables of the processes. Processes and
threads are numbered in the order of their creation; a number stands for the pointer of the
source. A page table entry is the number of a physical page and its write permission; it is
present and belongs to the user. The table of the lowest 4 MiB is the same in every address space,
and those of the kernel area exist in all of them. -/
namespace Kernel

open Base Function

def userMaximumHeapBreak : Nat := 0x80000000

def userVirtualRangesStart : Nat := 0xA0000000

def kernelAreaStart : Nat := 0xC0000000

def kernelVirtualRangesStart : Nat := 0xF0000000

def kernelVirtualRangesEnd : Nat := 0xFFB00000

/-- The pages of a 32-bit address space. The bitmap has more bits, but no
address leads to them. -/
def frameCount : Nat := 0x100000

def tableEntries : Nat := 1024

structure PageEntry where
  frame : Nat
  writable : Bool
deriving DecidableEq, Repr

def PageEntry.readOnly (e : PageEntry) : PageEntry :=
  { e with writable := false }

/-- The part of a process that is about its memory. -/
structure Memory.Process where
  securityLevel : Nat
  tables : Nat → Bool
  pages : Nat → Option PageEntry
  virtualRanges : AddressRangePool.Pool
  imageStart : Nat
  imageEnd : Nat
  heapStart : Nat
  heapBreak : Nat
  heapPages : Nat
  tlsMasterInProcLocation : Nat
  tlsMasterCopysize : Nat
  tlsMasterTotalsize : Nat
  tlsMasterAlignment : Nat

/-- The part of a thread that is about its stacks. -/
structure Memory.Thread where
  process : Nat
  isMain : Bool
  kernelStackPageVirt : Nat
  userStackAreaStart : Nat
  userStackPages : Nat
deriving DecidableEq, Repr

structure Memory where
  isFree : Nat → Bool
  freePageCount : Nat
  references : Nat → Option (Nat → Int)
  contents : Nat → Nat → UInt8
  lowPages : Nat → Option PageEntry
  kernelPages : Nat → Option Nat
  kernelRanges : AddressRangePool.Pool
  processes : Nat → Memory.Process
  processCount : Nat
  threads : Nat → Option Memory.Thread
  threadCount : Nat

namespace Memory

/-- Why an action does not return. A panic ends the system. A fault is an access of the kernel to
an address without a page table; the thread is then taken away from what it was doing, and the
system goes on. A hang is an access that faults again and again. -/
inductive Stop where
  | panic
  | fault
  | hang
deriving DecidableEq, Repr

abbrev Action := EStateM Stop Memory

variable (m : Memory)

def modifyProcess (p : Nat) (change : Process → Process) : Memory :=
  { m with processes := update m.processes p (change (m.processes p)) }

def entry (space page : Nat) : Option PageEntry :=
  if page < tableEntries then m.lowPages page else (m.processes space).pages page

def hasTable (space page : Nat) : Bool :=
  page < tableEntries || (m.processes space).tables (page / tableEntries)

def setEntry (space page : Nat) (value : Option PageEntry) : Memory :=
  if page < tableEntries then { m with lowPages := update m.lowPages page value }
  else m.modifyProcess space fun q => { q with pages := update q.pages page value }

def addTable (space table : Nat) : Memory :=
  m.modifyProcess space fun q =>
    { q with tables := update q.tables table true
             pages := fun page => if page / tableEntries = table then none else q.pages page }

def takeFrame (frame : Nat) : Memory :=
  { m with isFree := update m.isFree frame false
           freePageCount := sub32 m.freePageCount 1 }

def releaseFrame (frame : Nat) : Memory :=
  { m with isFree := update m.isFree frame true
           freePageCount := wrap32 (m.freePageCount + 1) }

/-- The table of counts that a physical page belongs to, all zero if there is
none yet. -/
def countTable (frame : Nat) : Nat → Int :=
  (m.references (frame / tableEntries)).getD fun _ => 0

def count (frame : Nat) : Int :=
  m.countTable frame (frame % tableEntries)

def setCount (frame : Nat) (value : Int) : Memory :=
  let table := update (m.countTable frame) (frame % tableEntries) value
  { m with references := update m.references (frame / tableEntries) (some table) }

def setKernelPage (page frame : Nat) : Memory :=
  { m with kernelPages := update m.kernelPages page (some frame) }

def writeFrame (frame offset : Nat) (value : UInt8) : Memory :=
  let page := update (m.contents frame) offset value
  { m with contents := update m.contents frame page }

def view (space page : Nat) : Option (Nat → UInt8) :=
  (m.entry space page).map fun e => m.contents e.frame

end Memory

namespace BitMapPageAllocator

/-- The search for the first set bit among the next `bits` ones. -/
def allocate (isFree : Nat → Bool) : (bits : Nat) → (frame : Nat) → Option Nat
  | 0, _ => none
  | bits + 1, frame => if isFree frame then some frame else allocate isFree bits (frame + 1)

end BitMapPageAllocator

namespace PPallocator

open Memory

def free (page : Nat) : Action Unit :=
  modify (·.releaseFrame (page / pageSize))

/-- The address 0 is the answer of a bitmap without free pages, so the page
with that address cannot be handed out either. -/
def allocate : Action Nat := do
  match BitMapPageAllocator.allocate (← get).isFree frameCount 0 with
  | none => throw .panic
  | some frame =>
    if frame = 0 then throw .panic
    modify (·.takeFrame frame)
    return frame * pageSize

end PPallocator

namespace PPreferenceTracker

open Memory

/-- Counts are kept in 16 bits. -/
def increment (address : Nat) : Action Unit :=
  modify fun m => m.setCount (address / pageSize) (Int.bmod (m.count (address / pageSize) + 1) 65536)

def decrement (address : Nat) : Action Int := do
  let m ← get
  match m.references (address / pageSize / tableEntries) with
  | none => return 0
  | some _ =>
    let value := Int.bmod (m.count (address / pageSize) - 1) 65536
    set (m.setCount (address / pageSize) value)
    return value

end PPreferenceTracker

namespace AddressSpace

open Memory

def createTable (space page : Nat) : Action Unit := do
  if !(← get).hasTable space page then
    let _ ← PPallocator.allocate
    modify (·.addTable space (page / tableEntries))

/-- `map` with the flags of a user page. No table of the kernel area is a user
table. -/
def map (space virtualAddr physicalAddr : Nat) (allowOverride : Bool) : Action Bool := do
  if virtualAddr % pageSize ≠ 0 ∨ physicalAddr % pageSize ≠ 0 then throw .panic
  if kernelAreaStart ≤ virtualAddr then throw .panic
  let page := virtualAddr / pageSize
  createTable space page
  if ((← get).entry space page).isNone || allowOverride then
    modify (·.setEntry space page (some ⟨physicalAddr / pageSize, true⟩))
    return true
  else return false

/-- `map` with the flags of a kernel page. It is called for the pages of the
kernel ranges, and for the page 0 where these are used up. -/
def mapKernel (virtualAddr physicalAddr : Nat) : Action Bool := do
  let page := virtualAddr / pageSize
  let m ← get
  if virtualAddr < kernelAreaStart then
    if (m.lowPages page).isSome then return false
    throw .panic
  if (m.kernelPages page).isSome then return false
  modify (·.setKernelPage page (physicalAddr / pageSize))
  return true

def mapToTemporaryMappedDirectory (space virtualAddr physicalAddr : Nat) (allowOverride : Bool) :
    Action Unit := do
  if virtualAddr % pageSize ≠ 0 ∨ physicalAddr % pageSize ≠ 0 then throw .panic
  let page := virtualAddr / pageSize
  createTable space page
  if ((← get).entry space page).isNone || allowOverride then
    modify (·.setEntry space page (some ⟨physicalAddr / pageSize, true⟩))
  else throw .panic

def unmap (space virtualAddress : Nat) : Action Unit :=
  modify fun m =>
    if m.hasTable space (virtualAddress / pageSize) then
      m.setEntry space (virtualAddress / pageSize) none
    else m

/-- The tables are read through the recursive mapping, so there is a fault
when the table does not exist. An empty entry gives the address 0. -/
def virtualToPhysical (space addr : Nat) : Action Nat := do
  let m ← get
  let page := addr / pageSize
  if kernelAreaStart ≤ addr then return ((m.kernelPages page).getD 0) * pageSize
  if m.hasTable space page then return ((m.entry space page).elim 0 PageEntry.frame) * pageSize
  throw .fault

end AddressSpace

/-! How the parts of the state are changed by the operations on it. -/
namespace Memory

variable (m : Memory)

@[simp] theorem modifyProcess_processes (p q : Nat) (change : Process → Process) :
    (m.modifyProcess p change).processes q =
      if q = p then change (m.processes p) else m.processes q := by
  unfold modifyProcess
  by_cases h : q = p
  · subst h
    simp
  · simp [h]

theorem modifyProcess_eq_self {p : Nat} {change : Process → Process}
    (h : change (m.processes p) = m.processes p) : m.modifyProcess p change = m := by
  unfold modifyProcess
  rw [h, update_eq_self]

@[simp] theorem entry_takeFrame (frame space page : Nat) :
    (m.takeFrame frame).entry space page = m.entry space page := rfl

@[simp] theorem processes_takeFrame (frame : Nat) :
    (m.takeFrame frame).processes = m.processes := rfl

theorem entry_of_pages {m m' : Memory} (hLow : m'.lowPages = m.lowPages)
    (hPages : ∀ q, (m'.processes q).pages = (m.processes q).pages) (space page : Nat) :
    m'.entry space page = m.entry space page := by
  unfold entry
  rw [hLow, hPages]

theorem entry_setEntry (p g : Nat) (value : Option PageEntry) (space page : Nat) :
    (m.setEntry p g value).entry space page =
      if page = g ∧ (g < tableEntries ∨ space = p) then value else m.entry space page := by
  unfold setEntry entry
  by_cases hLow : g < tableEntries
  · rw [if_pos hLow]
    by_cases hPage : page = g
    · subst hPage
      simp [hLow]
    · simp [hPage]
  · rw [if_neg hLow]
    by_cases hPage : page = g
    · subst hPage
      by_cases hSpace : space = p
      · subst hSpace
        simp [hLow, modifyProcess]
      · simp [hLow, hSpace, modifyProcess]
    · by_cases hSpace : space = p
      · subst hSpace
        simp [hPage, modifyProcess]
      · simp [hPage, hSpace, modifyProcess]

theorem entry_addTable (p table space page : Nat) : (m.addTable p table).entry space page =
      if space = p ∧ tableEntries ≤ page ∧ page / tableEntries = table then none
      else m.entry space page := by
  unfold addTable entry
  by_cases hLow : page < tableEntries
  · have hHigh : ¬tableEntries ≤ page := by omega
    simp [hLow, hHigh, modifyProcess]
  · have hHigh : tableEntries ≤ page := by omega
    by_cases hSpace : space = p
    · subst hSpace
      by_cases hTable : page / tableEntries = table
      · simp [hLow, hHigh, hTable]
      · simp [hLow, hTable]
    · simp [hLow, hSpace]

theorem hasTable_addTable (p page space other : Nat) :
    (m.addTable p (page / tableEntries)).hasTable space other =
      (m.hasTable space other || (space = p && other / tableEntries = page / tableEntries)) := by
  unfold addTable hasTable
  by_cases hSpace : space = p
  · subst hSpace
    by_cases hTable : other / tableEntries = page / tableEntries
    · simp [hTable]
    · simp [hTable]
  · simp [hSpace]

@[simp] theorem hasTable_setEntry (p g : Nat) (value : Option PageEntry) (space page : Nat) :
    (m.setEntry p g value).hasTable space page = m.hasTable space page := by
  unfold setEntry hasTable
  split
  · rfl
  · by_cases hSpace : space = p
    · subst hSpace
      simp
    · simp [hSpace]

@[simp] theorem isFree_setEntry (p g : Nat) (value : Option PageEntry) :
    (m.setEntry p g value).isFree = m.isFree := by
  unfold setEntry
  split
  · rfl
  · rfl

@[simp] theorem freePageCount_setEntry (p g : Nat) (value : Option PageEntry) :
    (m.setEntry p g value).freePageCount = m.freePageCount := by
  unfold setEntry
  split
  · rfl
  · rfl

@[simp] theorem references_setEntry (p g : Nat) (value : Option PageEntry) :
    (m.setEntry p g value).references = m.references := by
  unfold setEntry
  split
  · rfl
  · rfl

@[simp] theorem isFree_addTable (p table : Nat) : (m.addTable p table).isFree = m.isFree := rfl

theorem count_of_references {m m' : Memory} (h : m'.references = m.references) (frame : Nat) :
    m'.count frame = m.count frame := by
  unfold count countTable
  rw [h]

theorem count_setCount (frame other : Nat) (value : Int) :
    (m.setCount frame value).count other = if other = frame then value else m.count other := by
  unfold setCount count countTable
  by_cases hTable : other / tableEntries = frame / tableEntries
  · by_cases hIndex : other % tableEntries = frame % tableEntries
    · have hEq : other = frame := by
        rw [← Nat.div_add_mod other tableEntries, ← Nat.div_add_mod frame tableEntries, hTable, hIndex]
      simp [hEq]
    · have hNe : other ≠ frame := by
        rintro rfl
        exact hIndex rfl
      simp [hTable, hIndex, hNe]
  · have hNe : other ≠ frame := by
      rintro rfl
      exact hTable rfl
    simp [hTable, hNe]

end Memory

/-! What each of the basic actions does. -/

open Memory

variable {s t : Memory}

theorem BitMapPageAllocator.allocate_eq_some {isFree : Nat → Bool} {bits first frame : Nat}
    (h : BitMapPageAllocator.allocate isFree bits first = some frame) :
    isFree frame = true ∧ first ≤ frame ∧ ∀ f, first ≤ f → f < frame → isFree f = false := by
  induction bits generalizing first with
  | zero => simp [BitMapPageAllocator.allocate] at h
  | succ bits ih =>
    unfold BitMapPageAllocator.allocate at h
    by_cases hFree : isFree first = true
    · rw [if_pos hFree] at h
      cases h
      exact ⟨hFree, le_refl _, fun f hLe hLt => absurd hLe (by omega)⟩
    · rw [if_neg hFree] at h
      obtain ⟨hFrame, hFirst, hBefore⟩ := ih h
      refine ⟨hFrame, by omega, fun f hLe hLt => ?_⟩
      rcases eq_or_lt_of_le hLe with rfl | hGt
      · simpa using hFree
      · exact hBefore f hGt hLt

theorem PPallocator.run_allocate (s : Memory) : PPallocator.allocate.run s =
      match BitMapPageAllocator.allocate s.isFree frameCount 0 with
      | none => .error .panic s
      | some frame =>
        if frame = 0 then .error .panic s else .ok (frame * pageSize) (s.takeFrame frame) := by
  unfold PPallocator.allocate
  rw [run_get_bind]
  cases BitMapPageAllocator.allocate s.isFree frameCount 0 with
  | none => rfl
  | some frame =>
    by_cases hZero : frame = 0
    · simp [hZero]
    · simp [hZero]

def Memory.OutOfMemory (m : Memory) : Prop :=
  PPallocator.allocate.run m = .error .panic m

/-- An action stops because it needs a physical page and there is none. -/
abbrev Memory.Starved (reason : Stop) (m : Memory) : Prop :=
  reason = .panic ∧ OutOfMemory m

theorem PPallocator.allocate_spec :
    Finishes (fun phys t => ∃ frame, phys = frame * pageSize ∧ frame ≠ 0 ∧ s.isFree frame = true ∧
        t = s.takeFrame frame)
      (fun reason t => t = s ∧ Starved reason t) (PPallocator.allocate.run s) := by
  have hRun := PPallocator.run_allocate s
  cases hFind : BitMapPageAllocator.allocate s.isFree frameCount 0 with
  | none =>
    rw [hFind] at hRun
    rw [hRun]
    exact .stops ⟨rfl, rfl, hRun⟩
  | some frame =>
    by_cases hZero : frame = 0
    · simp only [hFind, hZero, if_true] at hRun
      rw [hRun]
      exact .stops ⟨rfl, rfl, hRun⟩
    · simp only [hFind, hZero, if_false] at hRun
      rw [hRun]
      exact .returns ⟨frame, rfl, hZero, (BitMapPageAllocator.allocate_eq_some hFind).1, rfl⟩

/-- The table for a page exists. Apart from it, only a free page has changed. -/
inductive Memory.Tabled (s : Memory) (space page : Nat) : Memory → Prop where
  | present (hTable : s.hasTable space page = true) : Tabled s space page s
  | created {frame : Nat} (hTable : s.hasTable space page = false) (hZero : frame ≠ 0)
      (hFree : s.isFree frame = true) :
      Tabled s space page ((s.takeFrame frame).addTable space (page / tableEntries))

theorem Memory.Tabled.hasTable {space page : Nat} (h : Tabled s space page t) :
    t.hasTable space page = true := by
  cases h with
  | present hTable => exact hTable
  | created => simp [hasTable_addTable]

namespace AddressSpace

variable {s t : Memory} {space virtualAddr physicalAddr : Nat} {allowOverride : Bool}

theorem createTable_spec {page : Nat} : Finishes (fun _ t => Tabled s space page t)
      (fun reason t => t = s ∧ Starved reason t) ((createTable space page).run s) := by
  unfold createTable
  rw [run_get_bind]
  by_cases hTable : s.hasTable space page = true
  · simp only [hTable, Bool.not_true, Bool.false_eq_true, if_false]
    exact .returns (.present hTable)
  · rw [Bool.not_eq_true] at hTable
    simp only [hTable, Bool.not_false, if_true]
    refine PPallocator.allocate_spec.bind (fun phys t hTake => ?_) fun _ _ hStop => hStop
    obtain ⟨frame, -, hZero, hFree, rfl⟩ := hTake
    exact .returns (.created hTable hZero hFree)

/-- A page is mapped unless it was mapped already. For a page of the user there may be no physical
page for its table. -/
theorem map_spec : Finishes (fun _ t => virtualAddr % pageSize = 0 ∧ physicalAddr % pageSize = 0 ∧
        virtualAddr < kernelAreaStart ∧ ∃ u, Tabled s space (virtualAddr / pageSize) u ∧
          t = if (u.entry space (virtualAddr / pageSize)).isNone || allowOverride then
            u.setEntry space (virtualAddr / pageSize) (some ⟨physicalAddr / pageSize, true⟩) else u)
      (fun reason t => t = s ∧ (virtualAddr % pageSize = 0 → physicalAddr % pageSize = 0 →
        virtualAddr < kernelAreaStart → Starved reason t))
      ((map space virtualAddr physicalAddr allowOverride).run s) := by
  unfold map
  by_cases hAligned : virtualAddr % pageSize ≠ 0 ∨ physicalAddr % pageSize ≠ 0
  · simp only [hAligned, if_true]
    exact .stops ⟨rfl, fun hVirtual hPhysical => by omega⟩
  by_cases hKernel : kernelAreaStart ≤ virtualAddr
  · simp only [hAligned, if_false, hKernel, if_true]
    exact .stops ⟨rfl, fun _ _ hUser => by omega⟩
  simp only [hAligned, if_false, hKernel]
  refine createTable_spec.bind (fun _ u hTable => ?_)
    fun _ _ hStop => ⟨hStop.1, fun _ _ _ => hStop.2⟩
  rw [run_get_bind]
  by_cases hSet : ((u.entry space (virtualAddr / pageSize)).isNone || allowOverride) = true
  · rw [if_pos hSet]
    exact .returns ⟨by omega, by omega, by omega, u, hTable, (if_pos hSet).symm⟩
  · rw [if_neg hSet]
    exact .returns ⟨by omega, by omega, by omega, u, hTable, (if_neg hSet).symm⟩

/-- It also stops when the page is mapped already. -/
theorem mapToTemporaryMappedDirectory_spec :
    Finishes (fun _ t => virtualAddr % pageSize = 0 ∧ physicalAddr % pageSize = 0 ∧
        ∃ u, Tabled s space (virtualAddr / pageSize) u ∧
          ((u.entry space (virtualAddr / pageSize)).isNone || allowOverride) = true ∧
          t = u.setEntry space (virtualAddr / pageSize) (some ⟨physicalAddr / pageSize, true⟩))
      (fun reason t => (t = s ∨ Tabled s space (virtualAddr / pageSize) t) ∧
        (virtualAddr % pageSize = 0 → physicalAddr % pageSize = 0 → Starved reason t ∨
          Tabled s space (virtualAddr / pageSize) t ∧
            ((t.entry space (virtualAddr / pageSize)).isNone || allowOverride) = false))
      ((mapToTemporaryMappedDirectory space virtualAddr physicalAddr allowOverride).run s) := by
  unfold mapToTemporaryMappedDirectory
  by_cases hAligned : virtualAddr % pageSize ≠ 0 ∨ physicalAddr % pageSize ≠ 0
  · simp only [hAligned, if_true]
    exact .stops ⟨.inl rfl, fun hVirtual hPhysical => by omega⟩
  simp only [hAligned, if_false]
  refine createTable_spec.bind (fun _ u hTable => ?_)
    fun _ _ hStop => ⟨.inl hStop.1, fun _ _ => .inl hStop.2⟩
  rw [run_get_bind]
  by_cases hSet : ((u.entry space (virtualAddr / pageSize)).isNone || allowOverride) = true
  · rw [if_pos hSet]
    exact .returns ⟨by omega, by omega, u, hTable, hSet, rfl⟩
  · rw [if_neg hSet]
    rw [Bool.not_eq_true] at hSet
    exact .stops ⟨.inr hTable, fun _ _ => .inr ⟨hTable, hSet⟩⟩

theorem unmap_returns {virtualAddress : Nat} {value : Unit}
    (h : (unmap space virtualAddress).run s = .ok value t) :
    t = if s.hasTable space (virtualAddress / pageSize) then
      s.setEntry space (virtualAddress / pageSize) none else s := by
  cases h
  rfl

theorem virtualToPhysical_spec {addr : Nat} :
    Finishes (fun phys t => t = s ∧ ∃ frame, phys = frame * pageSize ∧
        (addr < kernelAreaStart → s.hasTable space (addr / pageSize) = true ∧
          frame = (s.entry space (addr / pageSize)).elim 0 PageEntry.frame))
      (fun reason t => reason = .fault ∧ t = s ∧ s.hasTable space (addr / pageSize) = false)
      ((virtualToPhysical space addr).run s) := by
  unfold virtualToPhysical
  rw [run_get_bind]
  by_cases hKernel : kernelAreaStart ≤ addr
  · simp only [hKernel, if_true]
    exact .returns ⟨rfl, _, rfl, fun hUser => absurd hKernel (by omega)⟩
  · simp only [hKernel, if_false]
    by_cases hTable : s.hasTable space (addr / pageSize) = true
    · rw [if_pos hTable]
      exact .returns ⟨rfl, _, rfl, fun _ => ⟨hTable, rfl⟩⟩
    · rw [if_neg hTable]
      exact .stops ⟨rfl, rfl, by simpa using hTable⟩

end AddressSpace

/-- The count goes down by one. Without a table of counts it is 0 and stays
so. -/
theorem PPreferenceTracker.decrement_spec {address : Nat} :
    Finishes (fun value t => (t = s ∧ value = 0 ∧ s.count (address / pageSize) = 0) ∨
        (value = Int.bmod (s.count (address / pageSize) - 1) 65536 ∧
          t = s.setCount (address / pageSize) value))
      (fun _ _ => False) ((PPreferenceTracker.decrement address).run s) := by
  unfold PPreferenceTracker.decrement
  rw [run_get_bind]
  cases hTable : s.references (address / pageSize / tableEntries) with
  | none => exact .returns (.inl ⟨rfl, rfl, by simp [count, countTable, hTable]⟩)
  | some table => exact .returns (.inr ⟨rfl, rfl⟩)

end Kernel
