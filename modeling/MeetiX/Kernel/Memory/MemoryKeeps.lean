import MeetiX.Kernel.Memory.MemorySystem

/-! How a property of the memory is carried through the system calls: what the parts of a call
keep is kept by the call. The parts are few, since most calls only add memory. -/
namespace Kernel.Memory

open Base Ensures

/-- The fields of a process that say nothing about its address space. -/
structure SameSpace (q q' : Process) : Prop where
  tables : q'.tables = q.tables
  pages : q'.pages = q.pages
  virtualRanges : q'.virtualRanges = q.virtualRanges

/-- A property that the bytes in memory do not matter for. -/
class KeptByContents (Inv : Memory → Prop) : Prop where
  contents : ∀ m contents, Inv m → Inv { m with contents := contents }

namespace KeptByContents

variable {Inv : Memory → Prop} [h : KeptByContents Inv]

instance loadByte (space address : Nat) : Keeps Inv (loadByte space address) := by
  unfold Memory.loadByte
  refine seq fun m => ?_
  split <;> infer_instance

instance storeByte (space address : Nat) (value : UInt8) : Keeps Inv (storeByte space address value) := by
  unfold Memory.storeByte
  refine seq fun m => ?_
  split
  · infer_instance
  · exact Keeps.modify fun m hInv => h.contents m _ hInv

instance setBytes (space address : Nat) (value : UInt8) (length : Nat) :
    Keeps Inv (setBytes space address value length) := by
  unfold Memory.setBytes
  infer_instance

instance copyFrom (space address : Nat) (data : List UInt8) : Keeps Inv (copyFrom space address data) := by
  unfold Memory.copyFrom
  infer_instance

instance copyBytes (space target source length : Nat) :
    Keeps Inv (copyBytes space target source length) := by
  unfold Memory.copyBytes
  infer_instance

instance copyPage (space address target : Nat) : Keeps Inv (copyPage space address target) := by
  unfold Memory.copyPage
  refine seq fun m => ?_
  split
  · infer_instance
  · exact Keeps.modify fun m hInv => h.contents m _ hInv

end KeptByContents

/-- A property that is kept wherever a process gets pages that are counted. -/
class KeptByMapping (Inv : Memory → Prop) : Prop where
  allocateRange : ∀ p requestedPages flags, Keeps Inv (allocateRange p requestedPages flags)
  mapNewPage : ∀ p virtualAddr, Keeps Inv (mapNewPage p virtualAddr true)
  contents : ∀ m contents, Inv m → Inv { m with contents := contents }
  fields : ∀ m p change, (∀ q, SameSpace q (change q)) → Inv m → Inv (m.modifyProcess p change)

namespace KeptByMapping

attribute [instance] allocateRange mapNewPage

variable {Inv : Memory → Prop} [h : KeptByMapping Inv]

instance : KeptByContents Inv where
  contents := h.contents

theorem modifyFields {p : Nat} {change : Process → Process} (hChange : ∀ q, SameSpace q (change q)) :
    Keeps Inv (modify (·.modifyProcess p change) : Action PUnit) :=
  Keeps.modify fun m hInv => h.fields m p change hChange hInv

instance mapNewPages (p base pages : Nat) : Keeps Inv (mapNewPages p base pages true) := by
  unfold Memory.mapNewPages
  infer_instance

instance prepareThreadLocalStorage (p : Nat) : Keeps Inv (prepareThreadLocalStorage p) := by
  unfold Memory.prepareThreadLocalStorage
  infer_instance

instance loadLoadSegment (p : Nat) (segments : List Segment) :
    Keeps Inv (loadLoadSegment p segments) := by
  unfold Memory.loadLoadSegment
  have hImage : Keeps Inv (modify (·.modifyProcess p fun q =>
      { q with imageStart := imageStartOf segments, imageEnd := imageEndOf segments }) : Action PUnit) :=
    modifyFields fun _ => ⟨rfl, rfl, rfl⟩
  infer_instance

instance loadTlsMasterCopy (p : Nat) (segment : Segment) : Keeps Inv (loadTlsMasterCopy p segment) := by
  unfold Memory.loadTlsMasterCopy
  infer_instance

instance writeTlsMasterForProcess (p : Nat) (content : List UInt8) (totalsize alignment : Nat) :
    Keeps Inv (writeTlsMasterForProcess p content totalsize alignment) := by
  unfold Memory.writeTlsMasterForProcess
  have hMaster : ∀ location, Keeps Inv (modify (·.modifyProcess p fun q =>
      { q with tlsMasterInProcLocation := location, tlsMasterCopysize := content.length
               tlsMasterTotalsize := totalsize, tlsMasterAlignment := alignment }) : Action PUnit) :=
    fun location => modifyFields fun _ => ⟨rfl, rfl, rfl⟩
  infer_instance

instance initializeHeap (p : Nat) : Keeps Inv (initializeHeap p) := by
  unfold Memory.initializeHeap
  have hHeap : ∀ heapStart, Keeps Inv (modify (·.modifyProcess p fun q =>
      { q with heapBreak := heapStart, heapStart := heapStart, heapPages := 1 }) : Action PUnit) :=
    fun heapStart => modifyFields fun _ => ⟨rfl, rfl, rfl⟩
  infer_instance

instance expandHeap (p brkNew fuel : Nat) : Keeps Inv (expandHeap p brkNew fuel) := by
  induction fuel with
  | zero => exact Keeps.throw _
  | succ fuel ih =>
    unfold Memory.expandHeap
    have hPages : Keeps Inv (modify (·.modifyProcess p fun q =>
        { q with heapPages := wrap32 (q.heapPages + 1) }) : Action PUnit) :=
      modifyFields fun _ => ⟨rfl, rfl, rfl⟩
    infer_instance

instance shrinkHeap (p brkNew fuel : Nat) [∀ virtualAddr, Keeps Inv (releasePage p virtualAddr)] :
    Keeps Inv (shrinkHeap p brkNew fuel) := by
  induction fuel with
  | zero => exact Keeps.throw _
  | succ fuel ih =>
    unfold Memory.shrinkHeap
    have hPages : Keeps Inv (modify (·.modifyProcess p fun q =>
        { q with heapPages := sub32 q.heapPages 1 }) : Action PUnit) :=
      modifyFields fun _ => ⟨rfl, rfl, rfl⟩
    infer_instance

instance sbrk (p : Nat) (amount : Int) [∀ virtualAddr, Keeps Inv (releasePage p virtualAddr)] :
    Keeps Inv (sbrk p amount) := by
  unfold Memory.sbrk
  have hBreak : ∀ brk, Keeps Inv (modify (·.modifyProcess p fun q =>
      { q with heapBreak := brk }) : Action PUnit) :=
    fun brk => modifyFields fun _ => ⟨rfl, rfl, rfl⟩
  infer_instance

end KeptByMapping

/-- A property that is kept wherever a process gets more memory. -/
class KeptByGrowth (Inv : Memory → Prop) : Prop where
  allocate : Keeps Inv PPallocator.allocate
  allocateRange : ∀ p requestedPages flags, Keeps Inv (allocateRange p requestedPages flags)
  mapNewPage : ∀ p virtualAddr counted, Keeps Inv (mapNewPage p virtualAddr counted)
  mapStackPage : ∀ p virtualAddr, Keeps Inv (mapStackPage p virtualAddr false)
  kernelRange : Keeps Inv allocateKernelRange
  mapKernel : ∀ virtualAddr physicalAddr, Keeps Inv (AddressSpace.mapKernel virtualAddr physicalAddr)
  contents : ∀ m contents, Inv m → Inv { m with contents := contents }
  threads : ∀ m threads threadCount, Inv m → Inv { m with threads := threads, threadCount := threadCount }
  addProcess : ∀ securityLevel, Keeps Inv (addProcess (Process.new securityLevel))
  fields : ∀ m p change, (∀ q, SameSpace q (change q)) → Inv m → Inv (m.modifyProcess p change)

namespace KeptByGrowth

attribute [instance] allocate allocateRange mapNewPage mapStackPage kernelRange mapKernel addProcess

variable {Inv : Memory → Prop} [h : KeptByGrowth Inv]

instance : KeptByMapping Inv where
  allocateRange := h.allocateRange
  mapNewPage p virtualAddr := h.mapNewPage p virtualAddr true
  contents := h.contents
  fields := h.fields

instance mapNewPages (p base pages : Nat) (counted : Bool) :
    Keeps Inv (mapNewPages p base pages counted) := by
  unfold Memory.mapNewPages
  infer_instance

instance allocMem (p size : Nat) : Keeps Inv (allocMem p size) := by
  unfold Memory.allocMem
  infer_instance

instance createThreadKernelStack : Keeps Inv createThreadKernelStack := by
  unfold Memory.createThreadKernelStack
  infer_instance

instance createThreadUserStack (p : Nat) : Keeps Inv (createThreadUserStack p) := by
  unfold Memory.createThreadUserStack
  infer_instance

instance addThread (thread : Thread) : Keeps Inv (addThread thread) :=
  Keeps.modifyGet fun m hInv => h.threads m _ _ hInv

instance createThread (p : Nat) (isMain : Bool) : Keeps Inv (createThread p isMain) := by
  unfold Memory.createThread
  refine seq fun kernelStack => ?_
  split
  · infer_instance
  · refine seq fun userStack => ?_
    split <;> infer_instance

instance createProcess (securityLevel : Nat) : Keeps Inv (createProcess securityLevel) := by
  unfold Memory.createProcess
  infer_instance

instance spawnFromRamdisk (securityLevel : Nat) (segments : List Segment) (tls : Option Segment) :
    Keeps Inv (spawnFromRamdisk securityLevel segments tls) := by
  unfold Memory.spawnFromRamdisk
  refine seq fun created => ?_
  dsimp only
  split
  · infer_instance
  · cases tls with
    | none => infer_instance
    | some segment => infer_instance

instance growStack (id : Nat) (thread : Thread) (accessedVirtual : Nat) :
    Keeps Inv (growStack id thread accessedVirtual) := by
  unfold Memory.growStack
  have hThread : ∀ thread, Keeps Inv (modify (fun m : Memory =>
      { m with threads := Function.update m.threads id (some thread) }) : Action PUnit) :=
    fun thread => Keeps.modify fun m hInv => h.threads m _ m.threadCount hInv
  infer_instance

instance shareMem (p memory size processID : Nat)
    [∀ virtualAddr target targetAddr, Keeps Inv (sharePage p virtualAddr target targetAddr)] :
    Keeps Inv (shareMem p memory size processID) := by
  unfold Memory.shareMem
  dsimp only
  refine @Ensures.ite _ _ _ _ _ _ _ _ _ (seq fun m => ?_) _
  split <;> infer_instance

instance mapMmio (p physicalAddress size : Nat)
    [∀ virtualAddr physicalAddr, Keeps Inv (AddressSpace.map p virtualAddr physicalAddr false)] :
    Keeps Inv (mapMmio p physicalAddress size) := by
  unfold Memory.mapMmio
  infer_instance

instance cloneKernelStack (sourceThread : Thread) : Keeps Inv (cloneKernelStack sourceThread) := by
  unfold Memory.cloneKernelStack
  refine seq fun kernelStackVirt => seq fun kernelStackPhys =>
    seq fun mapped => seq fun m => ?_
  split <;> infer_instance

end KeptByGrowth

theorem Step.eq_finalState {s t : Memory} {event : Event} (h : Step s event t) :
    t = finalState ((execute event).run s) := by
  unfold Step next outcome at h
  cases hRun : (execute event).run s with
  | ok value middle =>
    rw [hRun] at h
    cases h
    rfl
  | error reason middle =>
    rw [hRun] at h
    cases reason with
    | fault =>
      cases h
      rfl
    | panic => cases h
    | hang => cases h

theorem run_withThread {s : Memory} {id : Nat} {thread : Thread} (hThread : s.threads id = some thread)
    (action : Thread → Action Unit) : (withThread id action).run s = (action thread).run s := by
  unfold withThread
  rw [run_get_bind, hThread]

theorem run_withThread_of_none {s : Memory} {id : Nat} (hThread : s.threads id = none)
    (action : Thread → Action Unit) : (withThread id action).run s = .error .panic s := by
  unfold withThread
  rw [run_get_bind, hThread]
  rfl

section Release

variable {Inv : Memory → Prop}

instance (p virtualBase : Nat) [∀ virtualAddr, Keeps Inv (freePage p virtualAddr)]
    [∀ virtualAddr, Keeps Inv (AddressSpace.unmap p virtualAddr)] [∀ base, Keeps Inv (freeRange p base)] :
    Keeps Inv (unmap p virtualBase) := by
  unfold unmap
  refine seq fun m => ?_
  split <;> infer_instance

instance (id : Nat) (action : Thread → Action Unit) [∀ thread, Keeps Inv (action thread)] :
    Keeps Inv (withThread id action) := by
  unfold withThread
  refine seq fun m => ?_
  split <;> infer_instance

/-- What the action of an event keeps holds after the event. -/
theorem Step.keeps {s t : Memory} {event : Event} [hKeeps : Keeps Inv (execute event)]
    (h : Step s event t) (hInv : Inv s) : Inv t := by
  rw [h.eq_finalState]
  exact hKeeps.after hInv

end Release

end Kernel.Memory
