import MeetiX.Kernel.Memory.MemoryCalls

/-! How processes and threads come into being and how a sub-thread goes away: the parts of the
thread manager and the ELF loader that are about memory. A created thread is registered. -/
namespace Kernel.Memory

open PPallocator

def threadUserStackReservedVirtualPages : Nat := 16

/-- The size of `UserThread`, which is one pointer. -/
def userThreadSize : Nat := 4

variable (space address : Nat)

/-- The physical page behind an address that the kernel reads or writes. -/
def frameAt (m : Memory) : Option Nat :=
  if kernelAreaStart ≤ address then m.kernelPages (address / pageSize)
  else (m.entry space (address / pageSize)).map PageEntry.frame

def loadByte : Action UInt8 := do
  let m ← get
  match frameAt space address m with
  | none => throw .fault
  | some frame => return m.contents frame (address % pageSize)

def storeByte (value : UInt8) : Action Unit := do
  match frameAt space address (← get) with
  | none => throw .fault
  | some frame => modify (·.writeFrame frame (address % pageSize) value)

def setBytes (value : UInt8) (length : Nat) : Action Unit := do
  for i in List.range length do
    storeByte space (wrap32 (address + i)) value

/-- `Memory::copy` from a buffer of the kernel. -/
def copyFrom (data : List UInt8) : Action Unit := do
  for i in List.range data.length do
    storeByte space (wrap32 (address + i)) (data.getD i 0)

/-- `Memory::copy` inside one address space. -/
def copyBytes (space target source length : Nat) : Action Unit := do
  for i in List.range length do
    storeByte space (wrap32 (target + i)) (← loadByte space (wrap32 (source + i)))

/-- A page of the kernel ranges, or 0 when there is none left. -/
def allocateKernelRange : Action Nat :=
  modifyGet fun m =>
    let result := AddressRangePool.allocate m.kernelRanges 1 rangeFlagNone
    (result.1, { m with kernelRanges := result.2 })

def createThreadKernelStack : Action (Option Nat) := do
  let kernelStackVirt ← allocateKernelRange
  if kernelStackVirt = 0 then return none
  let kernelStackPhys ← allocate
  let _ ← AddressSpace.mapKernel kernelStackVirt kernelStackPhys
  return some kernelStackVirt

/-- A new physical page for the user stack of a thread. -/
def mapStackPage (p virtualAddr : Nat) (allowOverride : Bool) : Action Nat := do
  let userStackPhys ← allocate
  AddressSpace.mapToTemporaryMappedDirectory p virtualAddr userStackPhys allowOverride
  return userStackPhys

variable (p : Nat)

/-- The user stack is the last page of a range of its own. -/
def createThreadUserStack : Action (Option Nat) := do
  let userStackVirtRange ← allocateRange p threadUserStackReservedVirtualPages rangeFlagNone
  if userStackVirtRange = 0 then return none
  let userStackVirt := pageAddress userStackVirtRange (threadUserStackReservedVirtualPages - 1)
  let _ ← mapStackPage p userStackVirt false
  return some userStackVirt

def alignUp (value alignment : Nat) : Nat :=
  if value % alignment = 0 then value else wrap32 (value + (alignment - value % alignment))

/-- Only a process with a master copy has thread local storage. The range is
not tested for failure. -/
def prepareThreadLocalStorage : Action Unit := do
  let process := (← get).processes p
  if process.tlsMasterInProcLocation = 0 then return ()
  let alignedTotalSize := alignUp process.tlsMasterTotalsize process.tlsMasterAlignment
  let requiredPages := pageAlignUp (wrap32 (alignedTotalSize + userThreadSize)) / pageSize
  let tlsCopyVirt ← allocateRange p requiredPages rangeFlagPhysicalOwner
  mapNewPages p tlsCopyVirt requiredPages true
  setBytes p tlsCopyVirt 0 process.tlsMasterTotalsize
  copyBytes p tlsCopyVirt process.tlsMasterInProcLocation process.tlsMasterCopysize
  let userThreadLoc := wrap32 (tlsCopyVirt + alignedTotalSize)
  copyFrom p userThreadLoc (wordBytes userThreadLoc)

def addThread (thread : Thread) : Action Nat :=
  modifyGet fun m =>
    (m.threadCount, { m with threads := Function.update m.threads m.threadCount (some thread)
                             threadCount := m.threadCount + 1 })

/-- `createThread`; sub-threads get their thread local storage here. -/
def createThread (isMain : Bool) : Action (Option Nat) := do
  match ← createThreadKernelStack with
  | none => return none
  | some kernelStackPageVirt =>
    match ← createThreadUserStack p with
    | none => return none
    | some userStackAreaStart =>
      if !isMain then prepareThreadLocalStorage p
      let thread ← addThread
        { process := p, isMain := isMain, kernelStackPageVirt := kernelStackPageVirt
          userStackAreaStart := userStackAreaStart, userStackPages := 1 }
      return some thread

def createSubThread : Action (Option Nat) :=
  createThread p false

/-- A process as its constructor leaves it, with its virtual ranges. -/
def Process.new (securityLevel : Nat) : Process where
  securityLevel := securityLevel
  tables := fun _ => false
  pages := fun _ => none
  virtualRanges := AddressRangePool.initializeArea [] userVirtualRangesStart kernelAreaStart
  imageStart := 0
  imageEnd := 0
  heapStart := 0
  heapBreak := 0
  heapPages := 0
  tlsMasterInProcLocation := 0
  tlsMasterCopysize := 0
  tlsMasterTotalsize := 0
  tlsMasterAlignment := 0

def insertProcess (process : Process) (m : Memory) : Memory :=
  { m with processes := Function.update m.processes m.processCount process
           processCount := m.processCount + 1 }

def addProcess (process : Process) : Action Nat :=
  modifyGet fun m => (m.processCount, insertProcess process m)

theorem entry_insertProcess_new (m : Memory) (securityLevel p page : Nat) :
    (insertProcess (Process.new securityLevel) m).entry p page =
      if p = m.processCount ∧ tableEntries ≤ page then none else m.entry p page := by
  unfold entry insertProcess
  by_cases hLow : page < tableEntries
  · simp [hLow]
  · by_cases hp : p = m.processCount
    · simp [hLow, hp, Process.new]
    · simp [hp]

/-- The page directory takes a physical page. The result is the process and
its main thread, if there is one. -/
def createProcess (securityLevel : Nat) : Action (Nat × Option Nat) := do
  let _ ← allocate
  let p ← addProcess (Process.new securityLevel)
  let mainThread ← createThread p true
  return (p, mainThread)

/-- A segment of an ELF file: where it goes, how much memory it takes, and the
bytes that the file has for it. -/
structure Segment where
  vaddr : Nat
  memsz : Nat
  data : List UInt8
deriving DecidableEq, Repr

variable (segments : List Segment)

def imageStartOf : Nat :=
  pageAlignDown (segments.foldl (fun start segment => min start segment.vaddr) 0xFFFFFFFF)

def imageEndOf : Nat :=
  pageAlignUp (segments.foldl (fun stop segment => max stop (wrap32 (segment.vaddr + segment.memsz))) 0)

def loadLoadSegment : Action Unit := do
  let imageStart := imageStartOf segments
  let imageEnd := imageEndOf segments
  mapNewPages p imageStart ((imageEnd - imageStart) / pageSize) true
  for segment in segments do
    setBytes p segment.vaddr 0 segment.memsz
    copyFrom p segment.vaddr segment.data
  modify (·.modifyProcess p fun q => { q with imageStart := imageStart, imageEnd := imageEnd })

/-- The loader does not tell the process where the master copy is. -/
def loadTlsMasterCopy (segment : Segment) : Action Unit := do
  let tlsPages := pageAlignUp segment.memsz / pageSize
  let tlsStart ← allocateRange p tlsPages rangeFlagNone
  mapNewPages p tlsStart tlsPages true
  setBytes p tlsStart 0 segment.memsz
  copyFrom p tlsStart segment.data

/-- `spawnFromRamdisk` of a valid ELF file with the given segments. -/
def spawnFromRamdisk (securityLevel : Nat) (segments : List Segment) (tls : Option Segment) :
    Action (Option Nat) := do
  let (p, mainThread) ← createProcess securityLevel
  match mainThread with
  | none => return none
  | some thread =>
    loadLoadSegment p segments
    match tls with
    | none => pure ()
    | some segment => loadTlsMasterCopy p segment
    prepareThreadLocalStorage p
    return some thread

/-- `writeTlsMasterForProcess`, which the spawner uses on a process that it
has created. -/
def writeTlsMasterForProcess (content : List UInt8) (totalsize alignment : Nat) : Action Unit := do
  let requiredPages := pageAlignUp content.length / pageSize
  let tlsMasterVirt ← allocateRange p requiredPages rangeFlagPhysicalOwner
  mapNewPages p tlsMasterVirt requiredPages true
  copyFrom p tlsMasterVirt content
  modify (·.modifyProcess p fun q =>
    { q with tlsMasterInProcLocation := tlsMasterVirt, tlsMasterCopysize := content.length
             tlsMasterTotalsize := totalsize, tlsMasterAlignment := alignment })

/-- `deleteTask` of a sub-thread. The physical pages of both stacks are freed,
and no page is unmapped. -/
def deleteSubThread (id : Nat) (thread : Thread) : Action Unit := do
  free (← AddressSpace.virtualToPhysical thread.process thread.kernelStackPageVirt)
  free (← AddressSpace.virtualToPhysical thread.process thread.userStackAreaStart)
  modify fun m => { m with threads := Function.update m.threads id none }

end Kernel.Memory
