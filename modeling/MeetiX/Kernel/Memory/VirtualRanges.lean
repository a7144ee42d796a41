import MeetiX.Kernel.Memory.AddressRangePoolHistory
import MeetiX.Kernel.Memory.MemoryKeeps

/-! What is true of the address spaces after any history of the system: the
range pool of a process covers the area of the virtual ranges, and an entry
lies in a table that exists. -/
namespace Kernel.Memory

open Base

/-- The pool is one that a history of allocations and releases can produce
from the area of the virtual ranges. -/
def RangesOk (pool : AddressRangePool.Pool) : Prop :=
  ∃ live, AddressRangePool.Invariant ⟨pool, [(userVirtualRangesStart, kernelAreaStart)], live⟩

theorem rangesOk_new :
    RangesOk (AddressRangePool.initializeArea [] userVirtualRangesStart kernelAreaStart) :=
  ⟨[], AddressRangePool.Invariant.empty.initializeArea (by decide) (by decide) (by decide)
    (by decide) (by simp [AddressRangePool.Ledger.empty])⟩

theorem RangesOk.allocate {pool : AddressRangePool.Pool} (h : RangesOk pool) (requestedPages flags : Nat) :
    RangesOk (AddressRangePool.allocate pool requestedPages flags).2 := by
  obtain ⟨live, hInv⟩ := h
  exact ⟨_, hInv.allocate rfl⟩

theorem RangesOk.free {pool : AddressRangePool.Pool} (h : RangesOk pool) (base : Nat) :
    RangesOk ((AddressRangePool.free pool base).elim pool Prod.snd) := by
  cases hFree : AddressRangePool.free pool base with
  | none => exact h
  | some result =>
    obtain ⟨live, hInv⟩ := h
    exact ⟨_, hInv.free hFree⟩

structure Layout (m : Memory) : Prop where
  ranges : ∀ p, RangesOk (m.processes p).virtualRanges
  tables : ∀ p page, m.hasTable p page = false → m.entry p page = none

namespace Layout

variable {m m' : Memory} {space page : Nat}

theorem of_same (h : Layout m) (hLow : m'.lowPages = m.lowPages)
    (hRanges : ∀ p, RangesOk (m'.processes p).virtualRanges)
    (hTables : ∀ p, (m'.processes p).tables = (m.processes p).tables)
    (hPages : ∀ p, (m'.processes p).pages = (m.processes p).pages) : Layout m' where
  ranges := hRanges
  tables p page hTable := by
    rw [entry_of_pages hLow hPages]
    apply h.tables
    unfold hasTable at hTable ⊢
    rwa [hTables] at hTable

theorem of_spaces (h : Layout m) (hLow : m'.lowPages = m.lowPages)
    (hProcesses : m'.processes = m.processes) : Layout m' :=
  h.of_same hLow (by rw [hProcesses]; exact h.ranges) (by simp [hProcesses]) (by simp [hProcesses])

theorem tabled {s t : Memory} (h : Layout s) (hTabled : Tabled s space page t) : Layout t := by
  cases hTabled with
  | present => exact h
  | @created frame hTable hZero hFree =>
    refine ⟨fun p => ?_, fun p other hOther => ?_⟩
    · by_cases hp : p = space
      · subst hp
        simpa [addTable] using h.ranges p
      · simpa [addTable, hp] using h.ranges p
    · rw [hasTable_addTable] at hOther
      rw [entry_addTable]
      split
      · rfl
      · exact h.tables p other (by simp_all [hasTable])

theorem setEntry (h : Layout m) {value : Option PageEntry}
    (hTable : m.hasTable space page = true) : Layout (m.setEntry space page value) where
  ranges p := by
    unfold Memory.setEntry
    split
    · exact h.ranges p
    · by_cases hp : p = space
      · subst hp
        simpa using h.ranges p
      · simpa [hp] using h.ranges p
  tables p other hOther := by
    rw [hasTable_setEntry] at hOther
    rw [entry_setEntry]
    split
    · rename_i hSame
      obtain ⟨rfl, hLow | rfl⟩ := hSame
      · simp [hasTable, hLow] at hOther
      · rw [hTable] at hOther
        cases hOther
    · exact h.tables p other hOther

end Layout

/-! Every action keeps the layout. -/
section Keeps

open Layout

instance : Keeps Layout PPallocator.allocate := by
  refine .mk fun s h => PPallocator.allocate_spec.mono ?_ ?_
  · rintro _ _ ⟨frame, -, -, -, rfl⟩
    exact h.of_spaces rfl rfl
  · rintro _ _ ⟨rfl, -⟩
    exact h

instance (page : Nat) : Keeps Layout (PPallocator.free page) :=
  Keeps.modify fun _ h => h.of_spaces rfl rfl

instance (address : Nat) : Keeps Layout (PPreferenceTracker.increment address) :=
  Keeps.modify fun _ h => h.of_spaces rfl rfl

instance (address : Nat) : Keeps Layout (PPreferenceTracker.decrement address) := by
  refine .mk fun s h => PPreferenceTracker.decrement_spec.mono ?_ nofun
  rintro _ _ (⟨rfl, -, -⟩ | ⟨-, rfl⟩)
  · exact h
  · exact h.of_spaces rfl rfl

instance (space virtualAddr physicalAddr : Nat) (allowOverride : Bool) :
    Keeps Layout (AddressSpace.map space virtualAddr physicalAddr allowOverride) := by
  refine .mk fun s h => AddressSpace.map_spec.mono ?_ ?_
  · rintro _ _ ⟨-, -, -, u, hTabled, rfl⟩
    have hLayout := h.tabled hTabled
    split
    · exact hLayout.setEntry hTabled.hasTable
    · exact hLayout
  · rintro _ _ ⟨rfl, -⟩
    exact h

instance (virtualAddr physicalAddr : Nat) :
    Keeps Layout (AddressSpace.mapKernel virtualAddr physicalAddr) := by
  unfold AddressSpace.mapKernel
  have hSet : ∀ page frame, Keeps Layout (modify (·.setKernelPage page frame) : Action PUnit) :=
    fun page frame => Keeps.modify fun _ h => h.of_spaces rfl rfl
  infer_instance

instance (space virtualAddr physicalAddr : Nat) (allowOverride : Bool) :
    Keeps Layout (AddressSpace.mapToTemporaryMappedDirectory space virtualAddr physicalAddr
      allowOverride) := by
  refine .mk fun s h => AddressSpace.mapToTemporaryMappedDirectory_spec.mono ?_ ?_
  · rintro _ _ ⟨-, -, u, hTabled, -, rfl⟩
    exact (h.tabled hTabled).setEntry hTabled.hasTable
  · rintro _ _ ⟨rfl | hTabled, -⟩
    · exact h
    · exact h.tabled hTabled

instance (space virtualAddress : Nat) : Keeps Layout (AddressSpace.unmap space virtualAddress) := by
  refine Keeps.modify fun m h => ?_
  split
  · rename_i hTable
    exact h.setEntry hTable
  · exact h

instance (space addr : Nat) : Keeps Layout (AddressSpace.virtualToPhysical space addr) := by
  refine .mk fun s h => AddressSpace.virtualToPhysical_spec.mono ?_ ?_
  · rintro _ _ ⟨rfl, -⟩
    exact h
  · rintro _ _ ⟨-, rfl, -⟩
    exact h

variable {m : Memory} {page : Nat}

theorem Layout.pages_eq_none (h : Layout m) {p : Nat} (hPage : tableEntries ≤ page)
    (hTable : (m.processes p).tables (page / tableEntries) = false) :
    (m.processes p).pages page = none := by
  have hLow : ¬page < tableEntries := by omega
  have hNone := h.tables p page (by simp [hasTable, hTable, hLow])
  simpa [entry, hLow] using hNone

theorem Layout.modifyProcess (h : Layout m) (p : Nat) (change : Process → Process)
    (hRanges : RangesOk (change (m.processes p)).virtualRanges)
    (hTables : ∀ q, (change q).tables = q.tables) (hPages : ∀ q, (change q).pages = q.pages) :
    Layout (m.modifyProcess p change) := by
  refine h.of_same rfl (fun q => ?_) (fun q => ?_) (fun q => ?_)
  · by_cases hq : q = p
    · subst hq
      simpa using hRanges
    · simpa [hq] using h.ranges q
  · by_cases hq : q = p
    · subst hq
      simp [hTables]
    · simp [hq]
  · by_cases hq : q = p
    · subst hq
      simp [hPages]
    · simp [hq]

theorem Layout.setProcess (h : Layout m) (p : Nat) (process : Process)
    (hRanges : RangesOk process.virtualRanges)
    (hTables : ∀ page, tableEntries ≤ page → process.tables (page / tableEntries) = false →
      process.pages page = none) {m' : Memory}
    (hProcesses : m'.processes = Function.update m.processes p process) : Layout m' where
  ranges q := by
    rw [hProcesses]
    by_cases hq : q = p
    · subst hq
      simpa using hRanges
    · simpa [hq] using h.ranges q
  tables q page hTable := by
    by_cases hPage : page < tableEntries
    · simp [hasTable, hPage] at hTable
    · by_cases hq : q = p
      · subst hq
        have hOwn : process.tables (page / tableEntries) = false := by
          simpa [hasTable, hPage, hProcesses] using hTable
        have hNone := hTables page (by omega) hOwn
        simp [entry, hPage, hProcesses, hNone]
      · have hOld := h.tables q page (by simpa [hasTable, hProcesses, hq] using hTable)
        simpa [entry, hPage, hProcesses, hq] using hOld

instance : KeptByGrowth Layout where
  allocate := inferInstance
  allocateRange p requestedPages flags := Keeps.modifyGet fun m h =>
    h.modifyProcess p (Process.setRanges _) ((h.ranges p).allocate requestedPages flags)
      (fun _ => rfl) fun _ => rfl
  mapNewPage p virtualAddr counted := by
    unfold mapNewPage
    infer_instance
  mapStackPage p virtualAddr := by
    unfold mapStackPage
    infer_instance
  kernelRange := Keeps.modifyGet fun m h => h.of_spaces rfl rfl
  mapKernel := inferInstance
  contents m contents h := h.of_spaces rfl rfl
  threads m threads threadCount h := h.of_spaces rfl rfl
  addProcess securityLevel := Keeps.modifyGet fun m h =>
    h.setProcess _ (Process.new securityLevel) rangesOk_new (fun _ _ _ => rfl) rfl
  fields m p change hChange h := by
    refine h.modifyProcess p change ?_ (fun q => (hChange q).tables) fun q => (hChange q).pages
    rw [(hChange _).virtualRanges]
    exact h.ranges p

instance (p base : Nat) : Keeps Layout (freeRange p base) :=
  Keeps.modify fun _ h => h.modifyProcess p _ ((h.ranges p).free base) (fun _ => rfl) fun _ => rfl

instance (p virtualAddr : Nat) : Keeps Layout (freePage p virtualAddr) := by
  unfold freePage
  infer_instance

instance (p virtualAddr : Nat) : Keeps Layout (releasePage p virtualAddr) := by
  unfold releasePage
  infer_instance

instance (p virtualAddr target targetAddr : Nat) :
    Keeps Layout (sharePage p virtualAddr target targetAddr) := by
  unfold sharePage
  infer_instance

instance (id : Nat) (thread : Thread) : Keeps Layout (deleteSubThread id thread) := by
  unfold deleteSubThread
  have hRemove : Keeps Layout (modify (fun m : Memory =>
      { m with threads := Function.update m.threads id none }) : Action PUnit) :=
    Keeps.modify fun m h => h.of_spaces rfl rfl
  infer_instance

theorem Copied.table_mem (h : Copied page) : page / tableEntries ∈ copiedTables := by
  obtain ⟨hLow, hHigh⟩ := h
  unfold copiedTables
  rw [List.mem_range'_1]
  unfold tableEntries pageSize userVirtualRangesStart at *
  omega

instance (parent page : Nat) : Keeps Layout (countCopy parent page) := by
  unfold countCopy
  refine Ensures.seq fun m => ?_
  split <;> infer_instance

instance (parent table : Nat) : Keeps Layout (cloneTable parent table) := by
  unfold cloneTable
  infer_instance

theorem Layout.cloneTables (h : Layout m) (parent child : Nat) :
    Layout (modifyChild parent child Process.cloneTables m) := by
  refine h.setProcess child ((m.processes parent).cloneTables (m.processes child)) (h.ranges child)
    (fun page hPage hTable => ?_) rfl
  by_cases hCopied : Copied page
  · have hParent : (m.processes parent).tables (page / tableEntries) = false := by
      simpa [Process.cloneTables, hCopied.table_mem] using hTable
    simp [Process.cloneTables, h.pages_eq_none hPage hParent]
  · simp [Process.cloneTables, hCopied]

theorem Layout.protectPages (h : Layout m) (parent : Nat) :
    Layout (m.modifyProcess parent Process.protectPages) := by
  refine h.setProcess parent (m.processes parent).protectPages (h.ranges parent)
    (fun page hPage hTable => ?_) rfl
  simp [Process.protectPages, h.pages_eq_none hPage hTable]

instance (child : Nat) (sourceThread : Thread) : Keeps Layout (cloneUserStack child sourceThread) := by
  unfold cloneUserStack mapStackPage
  infer_instance

instance (child : Nat) (sourceThread : Thread) :
    Keeps Layout (forkCurrentPageDirectory child sourceThread) := by
  unfold forkCurrentPageDirectory
  have hClone : Keeps Layout
      (modify (modifyChild sourceThread.process child Process.cloneTables) : Action PUnit) :=
    Keeps.modify fun _ h => h.cloneTables sourceThread.process child
  have hProtect : Keeps Layout
      (modify (·.modifyProcess sourceThread.process Process.protectPages) : Action PUnit) :=
    Keeps.modify fun _ h => h.protectPages sourceThread.process
  infer_instance

instance (sourceThread : Thread) : Keeps Layout (fork sourceThread) := by
  unfold fork
  have hHeap : ∀ child, Keeps Layout
      (modify (modifyChild sourceThread.process child Process.copyHeap) : Action PUnit) :=
    fun child => Keeps.modify fun m h => h.modifyProcess child
      (m.processes sourceThread.process).copyHeap (h.ranges child) (fun _ => rfl) fun _ => rfl
  infer_instance

instance (p accessedVirtual accessedPhysical : Nat) :
    Keeps Layout (copyOnWrite p accessedVirtual accessedPhysical) := by
  unfold copyOnWrite
  infer_instance

instance (id : Nat) (thread : Thread) (address : Nat) : Keeps Layout (handlePageFault id thread address) := by
  unfold handlePageFault
  infer_instance

instance (id : Nat) (thread : Thread) (address : Nat) (value : UInt8) :
    Keeps Layout (write id thread address value) := by
  unfold write
  refine Ensures.seq fun m => @Ensures.ite _ _ _ _ _ _ _ _ _ _
    (Ensures.seq fun result => ?_)
  cases result with
  | resolved => infer_instance
  | sigsegv => infer_instance

instance (event : Event) : Keeps Layout (execute event) := by
  cases event with
  | _ => unfold execute createSubThread; infer_instance

end Keeps

theorem boot_layout (isFree : Nat → Bool) (freePageCount : Nat) (contents : Nat → Nat → UInt8)
    (kernelPages : Nat → Option Nat) (kernelRanges : AddressRangePool.Pool) :
    Layout (boot isFree freePageCount contents kernelPages kernelRanges) where
  ranges p := rangesOk_new
  tables p page hTable := by
    by_cases hPage : page < tableEntries
    · simp [hasTable, hPage] at hTable
    · simp [entry, hPage, boot, Process.new]

/-- The layout is kept by every history of the system. -/
theorem run_layout {start finish : Memory} {events : List Event} (run : Run Step start events finish)
    (hStart : Layout start) : Layout finish :=
  run.invariant hStart fun _ _ _ h hStep => hStep.keeps h

end Kernel.Memory
