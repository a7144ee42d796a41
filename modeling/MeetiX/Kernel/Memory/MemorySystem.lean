import MeetiX.Kernel.Memory.Fork

/-! The memory of the whole system as a state machine. Its steps are the system
calls that are about memory, the creation of processes and threads, and the
writes of the user programs. -/
namespace Kernel.Memory

open Base

/-- The pages below `CONST_LOWER_MEMORY_END`. -/
def lowerMemoryPages : Nat := 0x100

/-- The memory before the first process is created. The lower memory is mapped
to itself for everyone and is never in the bitmap. The remaining parts are what
the boot code found and left behind. -/
def boot (isFree : Nat → Bool) (freePageCount : Nat) (contents : Nat → Nat → UInt8)
    (kernelPages : Nat → Option Nat) (kernelRanges : AddressRangePool.Pool) : Memory where
  isFree := fun frame => lowerMemoryPages ≤ frame && isFree frame
  freePageCount := freePageCount
  references := fun _ => none
  contents := contents
  lowPages := fun page => if page < lowerMemoryPages then some ⟨page, true⟩ else none
  kernelPages := kernelPages
  kernelRanges := kernelRanges
  processes := fun _ => Process.new 0
  processCount := 0
  threads := fun _ => none
  threadCount := 0

/-- What can happen to the memory. The first argument of most events is the
thread that makes the call. -/
inductive Event where
  | spawn (securityLevel : Nat) (segments : List Segment) (tls : Option Segment)
  | writeTlsMaster (thread : Nat) (content : List UInt8) (totalsize alignment : Nat)
  | createThread (thread : Nat)
  | exitThread (thread : Nat)
  | allocMem (thread size : Nat)
  | shareMem (thread memory size processID : Nat)
  | mapMmio (thread physicalAddress size : Nat)
  | unmap (thread virtualBase : Nat)
  | sbrk (thread : Nat) (amount : Int)
  | fork (thread : Nat)
  | write (thread address : Nat) (value : UInt8)
deriving DecidableEq, Repr

/-- The thread that an event is about. Nothing happens to a thread that does
not exist. -/
def withThread (id : Nat) (action : Thread → Action Unit) : Action Unit := do
  match (← get).threads id with
  | none => throw .panic
  | some thread => action thread

def execute : Event → Action Unit
  | .spawn securityLevel segments tls => do
      let _ ← spawnFromRamdisk securityLevel segments tls
  | .writeTlsMaster id content totalsize alignment =>
    withThread id fun thread =>
      writeTlsMasterForProcess thread.process content totalsize alignment
  | .createThread id => withThread id fun thread => do
      let _ ← createSubThread thread.process
  | .exitThread id => withThread id fun thread =>
    -- The end of a main thread is the end of its process.
    if thread.isMain then throw .panic else deleteSubThread id thread
  | .allocMem id size => withThread id fun thread => do
      let _ ← Memory.allocMem thread.process size
  | .shareMem id memory size processID => withThread id fun thread => do
      let _ ← Memory.shareMem thread.process memory size processID
  | .mapMmio id physicalAddress size => withThread id fun thread => do
      let _ ← Memory.mapMmio thread.process physicalAddress size
  | .unmap id virtualBase => withThread id fun thread => Memory.unmap thread.process virtualBase
  | .sbrk id amount => withThread id fun thread => do
      let _ ← Memory.sbrk thread.process amount
  | .fork id => withThread id fun thread => do
      let _ ← Memory.fork thread
  | .write id address value => withThread id fun thread => do
      let _ ← Memory.write id thread address value

/-- The state after an action that the system survives. A fault leaves the
state that was reached when it happened. -/
def outcome (result : EStateM.Result Stop Memory Unit) : Option Memory :=
  match result with
  | .ok _ t => some t
  | .error .fault t => some t
  | .error _ _ => none

def next (m : Memory) (event : Event) : Option Memory :=
  outcome ((execute event).run m)

def Step (s : Memory) (event : Event) (t : Memory) : Prop :=
  next s event = some t

def smallMachine : Memory :=
  boot (fun frame => frame < 400) 144 (fun _ _ => 0) (fun _ => none)
    (AddressRangePool.initializeArea [] kernelVirtualRangesStart kernelVirtualRangesEnd)

def smallImage : List Segment := [⟨0x8000000, 1, [7]⟩]

def reached (events : List Event) : Memory :=
  replay next smallMachine events

theorem run_reached {events : List Event} (h : (events.foldlM next smallMachine).isSome = true) :
    Run Step smallMachine events (reached events) :=
  run_replay h

end Kernel.Memory
