import MeetiX.Kernel.Memory.ForkEffect
import MeetiX.Kernel.Memory.PageFaults
import MeetiX.Kernel.Memory.UserHeap

/-! The calls that are about images and heaps: a process is spawned from an ELF file, moves the
end of its heap, forks or writes. All threads are main threads with their stacks in the usual
place. -/
namespace Kernel.Memory

open Base Function

def Process.IsImagePage (q : Process) (page : Nat) : Prop :=
  q.imageStart ≤ page * pageSize ∧ page * pageSize < q.imageEnd

def Process.IsHeapPage (q : Process) (page : Nat) : Prop :=
  q.heapStart ≤ page * pageSize ∧ page * pageSize < q.heapStart + q.heapPages * pageSize

instance (q : Process) (page : Nat) : Decidable (q.IsImagePage page) :=
  inferInstanceAs (Decidable (_ ∧ _))

instance (q : Process) (page : Nat) : Decidable (q.IsHeapPage page) :=
  inferInstanceAs (Decidable (_ ∧ _))

inductive ImageStep (s : Memory) : Event → Memory → Prop where
  | spawn {securityLevel : Nat} {segments : List Segment} {tls main : _} {t : Memory}
      (hRun : (spawnFromRamdisk securityLevel segments tls).run s = .ok main t) :
      ImageStep s (.spawn securityLevel segments tls) t
  | sbrk {id : Nat} {amount : Int} {thread : Thread} {result : SbrkResult} {t : Memory}
      (hThread : s.threads id = some thread)
      (hRun : (Memory.sbrk thread.process amount).run s = .ok result t) :
      ImageStep s (.sbrk id amount) t
  | fork {id child newId : Nat} {thread : Thread} {t : Memory} (hThread : s.threads id = some thread)
      (hRun : (Memory.fork thread).run s = .ok (child, newId) t) : ImageStep s (.fork id) t
  | write {id address : Nat} {value : UInt8} {thread : Thread} {result : FaultResult} {t : Memory}
      (hThread : s.threads id = some thread)
      (hRun : (Memory.write id thread address value).run s = .ok result t) :
      ImageStep s (.write id address value) t

theorem ImageStep.step {s t : Memory} {event : Event} (h : ImageStep s event t) : Step s event t := by
  have hStep : (execute event).run s = .ok () t → Step s event t := by
    intro hRun
    unfold Step next
    rw [hRun]
    rfl
  apply hStep
  cases h with
  | spawn hRun => exact bind_returns_iff.mpr ⟨_, _, hRun, rfl⟩
  | sbrk hThread hRun =>
    refine (run_withThread hThread _).trans ?_
    exact bind_returns_iff.mpr ⟨_, _, hRun, rfl⟩
  | fork hThread hRun =>
    refine (run_withThread hThread _).trans ?_
    exact bind_returns_iff.mpr ⟨_, _, hRun, rfl⟩
  | write hThread hRun =>
    refine (run_withThread hThread _).trans ?_
    exact bind_returns_iff.mpr ⟨_, _, hRun, rfl⟩

/-- What the loader does with a process that has been created. -/
def loadImage (p : Nat) (segments : List Segment) (tls : Option Segment) : Action Unit := do
  loadLoadSegment p segments
  match tls with
  | none => pure ()
  | some segment => loadTlsMasterCopy p segment
  prepareThreadLocalStorage p

theorem spawnFromRamdisk_returns {s t : Memory} {securityLevel : Nat} {segments : List Segment}
    {tls : Option Segment} {main : Option Nat}
    (h : (spawnFromRamdisk securityLevel segments tls).run s = .ok main t) :
    ∃ p u, (createProcess securityLevel).run s = .ok (p, main) u ∧
      ((main = none ∧ t = u) ∨ (main.isSome = true ∧ (loadImage p segments tls).run u = .ok () t)) := by
  obtain ⟨⟨p, mainThread⟩, u, hCreate, h⟩ := bind_returns_iff.mp h
  cases mainThread with
  | none =>
    cases h
    exact ⟨p, t, hCreate, .inl ⟨rfl, rfl⟩⟩
  | some id =>
    obtain ⟨_, a, hLoad, h⟩ := bind_returns_iff.mp h
    cases tls with
    | none =>
      obtain ⟨_, b, hPrepare, h⟩ := bind_returns_iff.mp h
      cases h
      refine ⟨p, u, hCreate, .inr ⟨rfl, ?_⟩⟩
      exact bind_returns_iff.mpr ⟨_, a, hLoad, hPrepare⟩
    | some segment =>
      obtain ⟨_, b, hTls, h⟩ := bind_returns_iff.mp h
      obtain ⟨_, c, hPrepare, h⟩ := bind_returns_iff.mp h
      cases h
      refine ⟨p, u, hCreate, .inr ⟨rfl, ?_⟩⟩
      exact bind_returns_iff.mpr ⟨_, a, hLoad, bind_returns_iff.mpr ⟨_, b, hTls, hPrepare⟩⟩

/-- The list of threads, the number of processes and the memory of the kernel. -/
def surroundings (m : Memory) := (m.threads, m.processCount, m.kernelRanges, m.kernelPages)

def Undisturbed (s t : Memory) : Prop := t.surroundings = s.surroundings

namespace Undisturbed

variable {s t : Memory}

theorem fields (h : Undisturbed s t) : t.threads = s.threads ∧ t.processCount = s.processCount ∧
    t.kernelRanges = s.kernelRanges ∧ t.kernelPages = s.kernelPages := by
  simpa [Undisturbed, surroundings] using h

theorem setEntry (h : Undisturbed s t) (p page : Nat) (value : Option PageEntry) :
    Undisturbed s (t.setEntry p page value) := by
  unfold Memory.setEntry
  split <;> exact h

theorem tabled (h : Undisturbed s t) {u : Memory} {space page : Nat} (hTabled : Tabled t space page u) :
    Undisturbed s u := by
  cases hTabled <;> exact h

end Undisturbed

section Keeps

variable (s : Memory)

instance : Keeps (Undisturbed s) PPallocator.allocate := by
  refine .mk fun m h => PPallocator.allocate_spec.mono ?_ ?_
  · rintro _ _ ⟨frame, -, -, -, rfl⟩
    exact h
  · rintro _ _ ⟨rfl, -⟩
    exact h

instance (space virtualAddr physicalAddr : Nat) (allowOverride : Bool) :
    Keeps (Undisturbed s) (AddressSpace.map space virtualAddr physicalAddr allowOverride) := by
  refine .mk fun m h => AddressSpace.map_spec.mono ?_ ?_
  · rintro _ _ ⟨-, -, -, u, hTabled, rfl⟩
    have hTable : Undisturbed s u := h.tabled hTabled
    split
    · exact hTable.setEntry ..
    · exact hTable
  · rintro _ _ ⟨rfl, -⟩
    exact h

instance (address : Nat) : Keeps (Undisturbed s) (PPreferenceTracker.increment address) :=
  Keeps.modify fun _ h => h

instance (address : Nat) : Keeps (Undisturbed s) (PPallocator.free address) :=
  Keeps.modify fun _ h => h

instance (address : Nat) : Keeps (Undisturbed s) (PPreferenceTracker.decrement address) := by
  refine .mk fun m h => PPreferenceTracker.decrement_spec.mono ?_ nofun
  rintro _ _ (⟨rfl, -, -⟩ | ⟨-, rfl⟩)
  · exact h
  · exact h

instance (space addr : Nat) : Keeps (Undisturbed s) (AddressSpace.virtualToPhysical space addr) := by
  refine .mk fun m h => AddressSpace.virtualToPhysical_spec.mono ?_ ?_
  · rintro _ _ ⟨rfl, -⟩
    exact h
  · rintro _ _ ⟨-, rfl, -⟩
    exact h

instance (space virtualAddress : Nat) : Keeps (Undisturbed s) (AddressSpace.unmap space virtualAddress) := by
  refine Keeps.modify fun m h => ?_
  split
  · exact h.setEntry space _ none
  · exact h

instance : KeptByMapping (Undisturbed s) where
  allocateRange p requestedPages flags := Keeps.modifyGet fun _ h => h
  mapNewPage p virtualAddr := by
    unfold mapNewPage
    infer_instance
  contents _ _ h := h
  fields _ _ _ _ h := h

instance (p virtualAddr : Nat) : Keeps (Undisturbed s) (releasePage p virtualAddr) := by
  unfold releasePage
  infer_instance

instance (p accessedVirtual accessedPhysical : Nat) :
    Keeps (Undisturbed s) (copyOnWrite p accessedVirtual accessedPhysical) := by
  unfold copyOnWrite
  infer_instance

end Keeps

instance (Inv : Memory → Prop) [KeptByMapping Inv] (p : Nat) (segments : List Segment)
    (tls : Option Segment) : Keeps Inv (loadImage p segments tls) := by
  unfold loadImage
  cases tls with
  | none => infer_instance
  | some segment => infer_instance

/-- All threads are main threads with their stacks, and the address spaces are well formed. -/
structure MainThreads (m : Memory) : Prop where
  layout : Layout m
  kernelRanges : KernelRangesOk m.kernelRanges
  main : ∀ id thread, m.threads id = some thread →
    thread.OnMainStack ∧ thread.process < m.processCount

namespace MainThreads

variable {s t : Memory}

theorem undisturbed (h : MainThreads s) (hLayout : Layout t) (hSame : Undisturbed s t) :
    MainThreads t := by
  obtain ⟨hThreads, hCount, hRanges, -⟩ := hSame.fields
  refine ⟨hLayout, hRanges ▸ h.kernelRanges, fun id thread hThread => ?_⟩
  rw [hCount]
  exact h.main id thread (hThreads ▸ hThread)

theorem setThread (h : MainThreads s) (hLayout : Layout t)
    (hRanges : KernelRangesOk t.kernelRanges) (hCount : s.processCount ≤ t.processCount) {id : Nat}
    {new : Thread} (hThreads : t.threads = update s.threads id (some new))
    (hNew : new.OnMainStack) (hProcess : new.process < t.processCount) : MainThreads t where
  layout := hLayout
  kernelRanges := hRanges
  main other thread hThread := by
    rw [hThreads] at hThread
    by_cases hSame : other = id
    · subst hSame
      rw [update_self] at hThread
      cases hThread
      exact ⟨hNew, hProcess⟩
    · rw [update_of_ne hSame] at hThread
      obtain ⟨hMain, hLess⟩ := h.main other thread hThread
      exact ⟨hMain, by omega⟩

theorem createProcess (h : MainThreads s) {securityLevel p : Nat} {main : Option Nat}
    (hRun : (Memory.createProcess securityLevel).run s = .ok (p, main) t) : MainThreads t := by
  have hCreated : Created s t securityLevel p main :=
    (createProcess_spec h.layout h.kernelRanges).of_returns hRun
  obtain ⟨u, hSpares, hNone, hSome⟩ := hCreated.spares
  have hRanges := hSpares.kernelRanges h.kernelRanges
  cases main with
  | none =>
    obtain rfl := hNone rfl
    refine ⟨hCreated.layout, hRanges, fun id thread hThread => ?_⟩
    rw [hSpares.threads] at hThread
    obtain ⟨hMain, hLess⟩ := h.main id thread hThread
    exact ⟨hMain, hLess.trans hCreated.processCount⟩
  | some id =>
    obtain ⟨rfl, kernelStackVirt, -, rfl⟩ := hSome id rfl
    refine h.setThread hCreated.layout hRanges hSpares.processCount rfl
      (Thread.main_onMainStack p kernelStackVirt) ?_
    rw [hCreated.process_eq]
    exact hCreated.processCount

theorem fork (h : MainThreads s) {id child newId : Nat} {thread : Thread}
    (hThread : s.threads id = some thread)
    (hRun : (Memory.fork thread).run s = .ok (child, newId) t) :
    Forked s t thread child newId ∧ MainThreads t := by
  obtain ⟨hMain, hProcess⟩ := h.main id thread hThread
  have hForked : Forked s t thread child newId :=
    (fork_spec h.layout h.kernelRanges hMain hProcess).of_returns hRun
  obtain ⟨u, hSpares, kernelStackVirt, -, ht⟩ := hForked.spares
  have hThreads : t.threads =
      update s.threads newId (some (thread.forked child kernelStackVirt)) := by
    rw [ht]
  refine ⟨hForked, h.setThread hForked.layout ?_ hForked.processCount.le hThreads
    ⟨hMain.pages_pos, hMain.pages_le, hMain.stop_eq⟩ ?_⟩
  · rw [ht]
    exact hSpares.kernelRanges h.kernelRanges
  · rw [hForked.child_eq]
    exact hForked.processCount

theorem write (h : MainThreads s) {id address : Nat} {thread : Thread} {value : UInt8}
    {result : FaultResult} (hThread : s.threads id = some thread)
    (hRun : (Memory.write id thread address value).run s = .ok result t) : MainThreads t := by
  obtain ⟨hMain, hProcess⟩ := h.main id thread hThread
  obtain ⟨u, contents, hEffect, rfl⟩ := (write_effect h.layout hMain).of_returns hRun
  have hBefore : MainThreads u := by
    cases hEffect with
    | plain => exact h
    | @grown v hArea hBelow hGrown =>
      have hCount := hGrown.spares.processCount
      refine h.setThread (hGrown.layout.of_spaces rfl rfl)
        (hGrown.spares.kernelRanges h.kernelRanges) hCount rfl (hMain.grownTo hArea hBelow) ?_
      exact hProcess.trans_le hCount
    | copied hStart hEnd hCopy hMapped =>
      exact h.undisturbed (Keeps.of_returns h.layout hCopy)
        (Keeps.of_returns rfl hCopy)
  exact ⟨hBefore.layout.of_spaces rfl rfl, hBefore.kernelRanges, hBefore.main⟩

theorem step (h : MainThreads s) {event : Event} (hStep : ImageStep s event t) : MainThreads t := by
  have hLayout : Layout t := hStep.step.keeps h.layout
  cases hStep with
  | spawn hRun =>
    obtain ⟨p, u, hCreate, ⟨-, rfl⟩ | ⟨-, hLoad⟩⟩ := spawnFromRamdisk_returns hRun
    · exact h.createProcess hCreate
    · exact (h.createProcess hCreate).undisturbed hLayout
        (Keeps.of_returns rfl hLoad)
  | sbrk hThread hRun =>
    exact h.undisturbed hLayout (Keeps.of_returns rfl hRun)
  | fork hThread hRun => exact (h.fork hThread hRun).2
  | write hThread hRun => exact h.write hThread hRun

theorem of_run {events : List Event} (h : MainThreads s) (hRun : Run ImageStep s events t) :
    MainThreads t :=
  hRun.invariant h fun _ _ _ hInv hStep => hInv.step hStep

end MainThreads

theorem boot_mainThreads (isFree : Nat → Bool) (freePageCount : Nat) (contents : Nat → Nat → UInt8)
    (kernelPages : Nat → Option Nat) {kernelRanges : AddressRangePool.Pool}
    (hRanges : KernelRangesOk kernelRanges) :
    MainThreads (boot isFree freePageCount contents kernelPages kernelRanges) where
  layout := boot_layout ..
  kernelRanges := hRanges
  main _ _ hThread := by cases hThread

end Kernel.Memory
