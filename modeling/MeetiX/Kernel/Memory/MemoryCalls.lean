import MeetiX.Kernel.Memory.Paging

/-! The system calls that give memory to a process and take it away again. An
address that a call hands out is a number; the address 0 stands for failure as
in the source. -/
namespace Kernel.Memory

def rangeFlagNone : Nat := 0

def rangeFlagPhysicalOwner : Nat := 1

def securityLevelDriver : Nat := 1

/-- The address of the page with the index `i` behind `base`. -/
def pageAddress (base i : Nat) : Nat :=
  wrap32 (base + wrap32 (i * pageSize))

def Process.setRanges (pool : AddressRangePool.Pool) (q : Process) : Process :=
  { q with virtualRanges := pool }

def allocateRange (p requestedPages flags : Nat) : Action Nat :=
  modifyGet fun m =>
    let result := AddressRangePool.allocate (m.processes p).virtualRanges requestedPages flags
    (result.1, m.modifyProcess p (Process.setRanges result.2))

/-- `virtualRanges.free` of a process. The result is not used by the callers. -/
def freeRange (p base : Nat) : Action Unit :=
  modify (·.modifyProcess p fun q =>
    q.setRanges ((AddressRangePool.free q.virtualRanges base).elim q.virtualRanges Prod.snd))

/-- A page of the process is backed with a new physical page. Only images,
heaps and thread local storage are counted in the reference tracker. -/
def mapNewPage (p virtualAddr : Nat) (counted : Bool) : Action Unit := do
  let phys ← PPallocator.allocate
  let _ ← AddressSpace.map p virtualAddr phys false
  if counted then PPreferenceTracker.increment phys

def mapNewPages (p base pages : Nat) (counted : Bool) : Action Unit := do
  for i in List.range pages do
    mapNewPage p (pageAddress base i) counted

/-- The loop breaks when there is no physical page left, but the allocator
does not return in that case, so there is nothing to roll back. -/
def allocMem (p size : Nat) : Action Nat := do
  let pages := pageAlignUp size / pageSize
  if pages = 0 then return 0
  let virtualRangeBase ← allocateRange p pages rangeFlagPhysicalOwner
  if virtualRangeBase = 0 then return 0
  mapNewPages p virtualRangeBase pages false
  return virtualRangeBase

/-- A page of one process is mapped into the address space of another one. -/
def sharePage (p virtualAddr target targetAddr : Nat) : Action Unit := do
  let physicalAddr ← AddressSpace.virtualToPhysical p virtualAddr
  let _ ← AddressSpace.map target targetAddr physicalAddr false

def shareMem (p memory size processID : Nat) : Action Nat := do
  let pages := pageAlignUp size / pageSize
  if memory < kernelAreaStart ∧ wrap32 (memory + wrap32 (pages * pageSize)) ≤ kernelAreaStart then
    match (← get).threads processID with
    | none => return 0
    | some targetThread =>
      let virtualRangeBase ← allocateRange targetThread.process pages rangeFlagNone
      if virtualRangeBase = 0 then return 0
      for i in List.range pages do
        sharePage p (pageAddress memory i) targetThread.process (pageAddress virtualRangeBase i)
      return virtualRangeBase
  else return 0

/-- The range is allocated before the number of pages is tested. -/
def mapMmio (p physicalAddress size : Nat) : Action Nat := do
  if ((← get).processes p).securityLevel ≤ securityLevelDriver then
    let pages := pageAlignUp size / pageSize
    let range ← allocateRange p pages rangeFlagNone
    if pages > 0 ∧ range ≠ 0 then
      for i in List.range pages do
        let _ ← AddressSpace.map p (pageAddress range i) (pageAddress physicalAddress i) false
      return range
    else return 0
  else return 0

def freePage (p virtualAddr : Nat) : Action Unit := do
  let physicalPage ← AddressSpace.virtualToPhysical p virtualAddr
  PPallocator.free physicalPage

/-- The first range with the base. Nothing asks whether it is in use. -/
def findRange (p base : Nat) (m : Memory) : Option AddressRangePool.AddressRange :=
  (m.processes p).virtualRanges.find? (·.base = base)

def unmap (p virtualBase : Nat) : Action Unit := do
  match findRange p virtualBase (← get) with
  | none => return ()
  | some range =>
    if range.flags &&& rangeFlagPhysicalOwner ≠ 0 then
      for i in List.range range.pages do
        freePage p (pageAddress range.base i)
    for i in List.range range.pages do
      AddressSpace.unmap p (pageAddress range.base i)
    freeRange p range.base

/-- The heap is set up right behind the image by the first call. -/
def initializeHeap (p : Nat) : Action Unit := do
  if ((← get).processes p).heapBreak = 0 then
    let heapStart := ((← get).processes p).imageEnd
    mapNewPage p heapStart true
    modify (·.modifyProcess p fun q =>
      { q with heapBreak := heapStart, heapStart := heapStart, heapPages := 1 })

/-- The end of the heap pages, in 32 bits. -/
def Process.heapTop (q : Process) : Nat :=
  wrap32 (q.heapStart + wrap32 (q.heapPages * pageSize))

def expandHeap (p brkNew : Nat) : (fuel : Nat) → Action Unit
  | 0 => throw .hang
  | fuel + 1 => do
      let virtAbove := ((← get).processes p).heapTop
      if virtAbove < brkNew then
        mapNewPage p virtAbove true
        modify (·.modifyProcess p fun q => { q with heapPages := wrap32 (q.heapPages + 1) })
        expandHeap p brkNew fuel

/-- A page is unmapped, and its physical page is freed with its last reference. -/
def releasePage (p virtualAddr : Nat) : Action Unit := do
  let phys ← AddressSpace.virtualToPhysical p virtualAddr
  AddressSpace.unmap p virtualAddr
  if (← PPreferenceTracker.decrement phys) = 0 then PPallocator.free phys

def shrinkHeap (p brkNew : Nat) : (fuel : Nat) → Action Unit
  | 0 => throw .hang
  | fuel + 1 => do
      let virtBelow := sub32 ((← get).processes p).heapTop pageSize
      if brkNew < virtBelow then
        releasePage p virtBelow
        modify (·.modifyProcess p fun q => { q with heapPages := sub32 q.heapPages 1 })
        shrinkHeap p brkNew fuel

/-- A pointer moved by a signed amount, in 32 bits. -/
def offset32 (address : Nat) (amount : Int) : Nat :=
  ((address + amount) % (wordSize : Nat)).toNat

/-- The fields of the call that are written back. -/
structure SbrkResult where
  address : Nat
  successful : Bool
deriving DecidableEq, Repr

/-- Each loop passes every page of the address space at most once. -/
def sbrk (p : Nat) (amount : Int) : Action SbrkResult := do
  initializeHeap p
  let brkOld := ((← get).processes p).heapBreak
  let brkNew := offset32 brkOld amount
  if userMaximumHeapBreak ≤ brkNew then return ⟨wordSize - 1, false⟩
  expandHeap p brkNew (frameCount + 1)
  shrinkHeap p brkNew (frameCount + 1)
  modify (·.modifyProcess p fun q => { q with heapBreak := brkNew })
  return ⟨brkOld, true⟩

end Kernel.Memory
