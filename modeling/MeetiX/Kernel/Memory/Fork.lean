import MeetiX.Kernel.Memory.ThreadManager

/-! Forking, and the page faults that follow it. Between the lowest 4 MiB and
the virtual ranges parent and child share all physical pages, and both have
lost the permission to write to them. -/
namespace Kernel.Memory

open PPallocator

def copiedTables : List Nat := List.range' 1 639

def Copied (page : Nat) : Prop :=
  tableEntries ≤ page ∧ page * pageSize < userVirtualRangesStart

instance (page : Nat) : Decidable (Copied page) :=
  inferInstanceAs (Decidable (_ ∧ _))

/-- A page that is copied has one more reference. -/
def countCopy (parent page : Nat) : Action Unit := do
  match (← get).entry parent page with
  | some e => PPreferenceTracker.increment (e.frame * pageSize)
  | none => return ()

/-- A physical page is taken for the new table. -/
def cloneTable (parent table : Nat) : Action Unit := do
  if ((← get).processes parent).tables table then
    let _ ← allocate
    for i in List.range tableEntries do
      countCopy parent (table * tableEntries + i)

/-- What the copied tables of a child contain. The tables of the virtual
ranges stay empty. -/
def Process.cloneTables (parent child : Process) : Process :=
  { child with
    tables := fun table => parent.tables table && table ∈ copiedTables
    pages := fun page =>
      if Copied page then (parent.pages page).map PageEntry.readOnly else none }

/-- The copied tables of the parent lose the permission as well. -/
def Process.protectPages (parent : Process) : Process :=
  { parent with
    pages := fun page =>
      if Copied page then (parent.pages page).map PageEntry.readOnly else parent.pages page }

/-- The image and the heap of the child are those of the parent. -/
def Process.copyHeap (parent child : Process) : Process :=
  { child with
    heapBreak := parent.heapBreak, heapPages := parent.heapPages, heapStart := parent.heapStart
    imageEnd := parent.imageEnd, imageStart := parent.imageStart }

/-- A change of the child that depends on the parent. -/
def modifyChild (parent child : Nat) (change : Process → Process → Process) (m : Memory) : Memory :=
  m.modifyProcess child (change (m.processes parent))

def copyFrame (source target : Nat) (m : Memory) : Memory :=
  { m with contents := Function.update m.contents target (m.contents source) }

/-- Copies a page of an address space to a physical page. -/
def copyPage (space address target : Nat) : Action Unit := do
  match frameAt space address (← get) with
  | none => throw .fault
  | some frame => modify (copyFrame frame (target / pageSize))

def cloneUserStack (child : Nat) (sourceThread : Thread) : Action Nat := do
  let userStackVirtRange ← allocateRange child threadUserStackReservedVirtualPages rangeFlagNone
  let userStackStart := pageAddress userStackVirtRange
    (threadUserStackReservedVirtualPages - sourceThread.userStackPages)
  for i in List.range sourceThread.userStackPages do
    let userStackPhys ← mapStackPage child (pageAddress userStackStart i) true
    copyPage sourceThread.process (pageAddress sourceThread.userStackAreaStart i) userStackPhys
  return userStackStart

/-- The kernel stack of the child. The range is not tested for failure. -/
def cloneKernelStack (sourceThread : Thread) : Action Nat := do
  let kernelStackVirt ← allocateKernelRange
  let kernelStackPhys ← allocate
  let _ ← AddressSpace.mapKernel kernelStackVirt kernelStackPhys
  match frameAt 0 kernelStackVirt (← get) with
  | none => throw .fault
  | some frame => copyPage 0 sourceThread.kernelStackPageVirt (frame * pageSize)
  return kernelStackVirt

/-- The result is where the stacks of the child are. -/
def forkCurrentPageDirectory (child : Nat) (sourceThread : Thread) : Action (Nat × Nat) := do
  let parent := sourceThread.process
  let _ ← allocate
  for table in copiedTables do
    cloneTable parent table
  modify (modifyChild parent child Process.cloneTables)
  let userStackVirt ← cloneUserStack child sourceThread
  let kernelStackVirt ← cloneKernelStack sourceThread
  modify (·.modifyProcess parent Process.protectPages)
  return (kernelStackVirt, userStackVirt)

/-- The result is the child and its main thread. -/
def fork (sourceThread : Thread) : Action (Nat × Nat) := do
  let parent := sourceThread.process
  let child ← addProcess (Process.new ((← get).processes parent).securityLevel)
  let (kernelStackVirt, userStackVirt) ← forkCurrentPageDirectory child sourceThread
  modify (modifyChild parent child Process.copyHeap)
  let thread ← addThread
    { process := child, isMain := true, kernelStackPageVirt := kernelStackVirt
      userStackAreaStart := userStackVirt, userStackPages := sourceThread.userStackPages }
  return (child, thread)

inductive FaultResult where
  | resolved
  | sigsegv
deriving DecidableEq, Repr

/-- The lowest address that the stack of a thread may reach. -/
def Thread.stackAreaStart (thread : Thread) : Nat :=
  sub32 thread.userStackAreaStart
    ((threadUserStackReservedVirtualPages - thread.userStackPages) * pageSize)

def Thread.stackAreaEnd (thread : Thread) : Nat :=
  wrap32 (thread.userStackAreaStart + thread.userStackPages * pageSize)

/-- The stack is mapped from the accessed page up to where it began before. The
number of its pages has eight bits. -/
def growStack (id : Nat) (thread : Thread) (accessedVirtual : Nat) : Action Unit := do
  let added := (thread.userStackAreaStart - accessedVirtual) / pageSize
  mapNewPages thread.process accessedVirtual added false
  modify fun m =>
    let grown := { thread with userStackPages := (thread.userStackPages + added) % 256
                               userStackAreaStart := accessedVirtual }
    { m with threads := Function.update m.threads id (some grown) }

/-- The accessed page is replaced by a copy that may be written. -/
def copyOnWrite (p accessedVirtual accessedPhysical : Nat) : Action Unit := do
  let newPhysPhysical ← allocate
  copyPage p accessedVirtual newPhysPhysical
  let _ ← AddressSpace.map p accessedVirtual newPhysPhysical true
  PPreferenceTracker.increment newPhysPhysical
  if (← PPreferenceTracker.decrement accessedPhysical) = 0 then free accessedPhysical

def handlePageFault (id : Nat) (thread : Thread) (address : Nat) : Action FaultResult := do
  let p := thread.process
  let accessedVirtual := pageAlignDown address
  let accessedPhysical ← AddressSpace.virtualToPhysical p accessedVirtual
  if thread.stackAreaStart ≤ accessedVirtual ∧ accessedVirtual < thread.stackAreaEnd then
    growStack id thread accessedVirtual
    return .resolved
  let process := (← get).processes p
  if process.imageStart ≤ accessedVirtual ∧ accessedVirtual ≤ process.imageEnd then
    if (frameAt p accessedVirtual (← get)).isSome then
      copyOnWrite p accessedVirtual accessedPhysical
      return .resolved
  return .sigsegv

/-- The processor lets a user program in ring 3 write to a page of its own with the permission to
do so. Writes of the kernel are not modelled by it. -/
def writable (p address : Nat) (m : Memory) : Bool :=
  address < kernelAreaStart && ((m.entry p (address / pageSize)).elim false PageEntry.writable)

/-- A write by a user program in ring 3. After a page fault that was resolved the
instruction is executed again. -/
def write (id : Nat) (thread : Thread) (address : Nat) (value : UInt8) : Action FaultResult := do
  if writable thread.process address (← get) then
    storeByte thread.process address value
    return .resolved
  match ← handlePageFault id thread address with
  | .sigsegv => return .sigsegv
  | .resolved =>
    if writable thread.process address (← get) then
      storeByte thread.process address value
      return .resolved
    throw .hang

end Kernel.Memory
