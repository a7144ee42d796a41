import Mathlib.Algebra.Order.BigOperators.Group.List
import Mathlib.Algebra.Order.Group.Nat
import MeetiX.Kernel.Memory.KernelHeap

/-! Whole histories of the kernel heap. Blocks in use are noted with their requested sizes. The
amount in use is raised by the requested size and lowered by the one in the header, and the end of
the heap is compared with its maximum before it is moved. -/
namespace Kernel.KernelHeap

open Base ChunkAllocator List

structure System where
  heap : KernelHeap
  /-- Address and requested size of the blocks in use. -/
  live : List (Nat × Nat)

inductive Op
  | allocate (size : Nat)
  | free (mem : Nat)
  deriving DecidableEq, Repr

/-- A call that returns. Only blocks in use are freed. -/
inductive Step : System → Op → System → Prop
  | allocate {s : System} {size address : Nat} {heap : KernelHeap} (hWord : size < wordSize)
      (hAllocate : s.heap.allocate size = .ok address heap) :
      Step s (.allocate size) ⟨heap, (address, size) :: s.live⟩
  | free {s : System} {block : Nat × Nat} {heap : KernelHeap} (hBlock : block ∈ s.live)
      (hFree : s.heap.free block.1 = .ok () heap) :
      Step s (.free block.1) ⟨heap, s.live.erase block⟩

/-- The area that the loader hands over. -/
structure Area where
  start : Nat
  stop : Nat
  start_pos : 0 < start
  room : start + headerSize ≤ stop
  stop_lt : stop < wordSize

/-- The heap after `initialize`, in an address space with these tables and pages. -/
def boot (area : Area) (freePages : Nat) (tables pages : List Nat) : System :=
  ⟨(new freePages tables pages).initializeHeap area.start area.stop, []⟩

theorem boot_managed (area : Area) (freePages : Nat) (tables pages : List Nat) :
    Managed (boot area freePages tables pages).heap [] [⟨area.start, false,
      area.stop - area.start - headerSize⟩] :=
  ⟨rfl, Arena.initializeArea _ area.start_pos area.room area.stop_lt, nofun, nodup_nil⟩

/-- A request does not run over when its header is added to it. -/
def Op.Addressable : Op → Prop
  | .allocate size => size + headerSize < wordSize
  | .free _ => True

variable {s t : System} {op : Op} {chunks : List Chunk}

theorem Step.spec (hStep : Step s op t) (hOp : op.Addressable) (h : Managed s.heap s.live chunks) :
    (∃ size address, op = .allocate size ∧ t.live = (address, size) :: s.live ∧
      Allocated s.heap t.heap s.live address size ∧
      (s.heap.heapEnd ≤ kernelHeapMaximumEnd → s.heap.WithinLimit size →
        BelowMaximum s.heap t.heap)) ∨
    ∃ block ∈ s.live, t.live = s.live.erase block ∧ (∃ chunks', Managed t.heap t.live chunks') ∧
      t.heap.usedMemoryAmount =
        sub32 s.heap.usedMemoryAmount ((s.heap.ledger s.live).blockSize block.1) ∧
      t.heap.heapEnd = s.heap.heapEnd ∧ t.heap.pages = s.heap.pages ∧
      ∀ b ∈ t.live, (t.heap.ledger t.live).blockSize b.1 = (s.heap.ledger s.live).blockSize b.1 := by
  cases hStep with
  | @allocate size address heap hWord hAllocate =>
    left
    obtain ⟨heap', ⟨address', hOk, hAllocated⟩ | hPanic, hBelow⟩ := h.allocate_ends hOp
    · cases hOk.symm.trans hAllocate
      exact ⟨size, address, rfl, rfl, hAllocated, hBelow⟩
    · cases hPanic.symm.trans hAllocate
  | @free block heap hBlock hFree =>
    right
    obtain ⟨heap', chunks', hOk, hManaged, hUsed, hEnd, hPages, hSizes⟩ := h.free_spec hBlock
    cases hOk.symm.trans hFree
    exact ⟨block, hBlock, rfl, ⟨chunks', hManaged⟩, hUsed, hEnd, hPages, hSizes⟩

theorem Step.managed (hStep : Step s op t)
    (hOp : op.Addressable) (h : Managed s.heap s.live chunks) :
    ∃ chunks', Managed t.heap t.live chunks' := by
  rcases hStep.spec hOp h with ⟨size, address, -, hLive, hAllocated, -⟩ | ⟨_, _, _, hManaged, _⟩
  · rw [hLive]
    exact hAllocated.managed
  · exact hManaged

section Amount

/-- A request of at least the minimum of the chunk allocator. -/
def Op.AboveMinimum : Op → Prop
  | .allocate size => minimumAllocationSize ≤ size ∧ size + headerSize < wordSize
  | .free _ => True

theorem Op.AboveMinimum.addressable {op : Op} (h : op.AboveMinimum) : op.Addressable := by
  cases op with
  | allocate size => exact h.2
  | free mem => trivial

/-- Every block has exactly the size that was requested, and the amount in use is their
sum. -/
structure Balanced (s : System) : Prop where
  managed : ∃ chunks, Managed s.heap s.live chunks
  stored : ∀ b ∈ s.live, (s.heap.ledger s.live).blockSize b.1 = b.2
  used_eq : s.heap.usedMemoryAmount = (s.live.map Prod.snd).sum

theorem Balanced.sum_blockSize {s : System} (h : Balanced s) :
    (s.live.map fun b => (s.heap.ledger s.live).blockSize b.1).sum = (s.live.map Prod.snd).sum := by
  rw [map_congr_left h.stored]

/-- The step lemma of the kernel heap and its counter. -/
theorem Balanced.step {s t : System} {op : Op} (h : Balanced s) (hOp : op.AboveMinimum)
    (hStep : Step s op t) : Balanced t := by
  obtain ⟨chunks, hManaged⟩ := h.managed
  have hNext := hStep.managed hOp.addressable hManaged
  rcases hStep.spec hOp.addressable hManaged with
    ⟨size, address, rfl, hLive, hAllocated, -⟩ |
    ⟨block, hBlock, hLive, -, hUsed, -, -, hSizes⟩
  · have hStored : ∀ b ∈ t.live, (t.heap.ledger t.live).blockSize b.1 = b.2 := by
      rw [hLive]
      refine forall_mem_cons.mpr ⟨?_, fun b hb => ?_⟩
      · exact hAllocated.blockSize_eq.trans (max_eq_left hOp.1)
      · exact (hAllocated.sizes b hb).trans (h.stored b hb)
    have hSum : (t.live.map Prod.snd).sum < wordSize := by
      obtain ⟨chunks', hManaged'⟩ := hNext
      rw [← map_congr_left hStored]
      exact hManaged'.arena.sum_blockSize_lt
    refine ⟨hNext, hStored, ?_⟩
    rw [hLive, map_cons, sum_cons] at hSum ⊢
    rw [hAllocated.used_eq, h.used_eq, Nat.add_comm, wrap32_of_lt hSum]
  · have hSum : (s.live.map Prod.snd).sum = block.2 + ((s.live.erase block).map Prod.snd).sum :=
      ((perm_cons_erase hBlock).map Prod.snd).sum_eq
    have hLt : (s.live.map Prod.snd).sum < wordSize := by
      rw [← h.sum_blockSize]
      exact hManaged.arena.sum_blockSize_lt
    refine ⟨hNext, fun b hb => ?_, ?_⟩
    · rw [hSizes b hb]
      exact h.stored b (mem_of_mem_erase (hLive ▸ hb))
    · rw [hUsed, h.used_eq, h.stored block hBlock, hLive, sub32_of_le (by omega) hLt]
      omega

/-- As long as every request is at least the minimum, the amount in use is the sum of the sizes of
the blocks in use, which are the requested ones, so that freeing never takes it below zero and it
is zero when all blocks are freed. -/
theorem used_amount_eq_sum {area : Area} {freePages : Nat} {tables pages : List Nat}
    {ops : List Op} {s : System} (run : Run Step (boot area freePages tables pages) ops s)
    (hOps : ∀ op ∈ ops, op.AboveMinimum) :
    s.heap.usedMemoryAmount = (s.live.map Prod.snd).sum ∧
    s.heap.usedMemoryAmount =
      (s.live.map fun b => (s.heap.ledger s.live).blockSize b.1).sum ∧
    (∀ b ∈ s.live, (s.heap.ledger s.live).blockSize b.1 ≤ s.heap.usedMemoryAmount) ∧
    (s.live = [] → s.heap.usedMemoryAmount = 0) := by
  have h : Balanced s := by
    refine run.invariant_of_mem ?_ fun t op t' hMem hBalanced => hBalanced.step (hOps op hMem)
    exact ⟨⟨_, boot_managed area freePages tables pages⟩, nofun, rfl⟩
  refine ⟨h.used_eq, h.used_eq.trans h.sum_blockSize.symm, fun b hb => ?_, fun hEmpty => ?_⟩
  · rw [h.stored b hb, h.used_eq]
    exact single_le_sum (by simp) _ (mem_map_of_mem hb)
  · rw [h.used_eq, hEmpty]
    rfl

def onePage : Area := ⟨0xC0000000, 0xC0001000, by decide, by decide, by decide⟩

/-- Two blocks of 20 and 8 bytes, the first of which is freed again. -/
theorem used_amount_eq_sum_two_blocks :
    ∃ s, Run Step (boot onePage 0 [] []) [.allocate 20, .allocate 8, .free 0xC000000C] s ∧
      s.live = [(0xC000002C, 8)] ∧ s.heap.usedMemoryAmount = 8 := by
  have hFirst := Run.single
    (@Step.allocate (boot onePage 0 [] []) 20 0xC000000C _ (by decide) rfl)
  have hSecond := Run.snoc hFirst (@Step.allocate _ 8 0xC000002C _ (by decide) rfl)
  have run := Run.snoc hSecond (@Step.free _ (0xC000000C, 20) _ (by decide) rfl)
  refine ⟨_, run, rfl, ?_⟩
  exact (used_amount_eq_sum run (by simp [Op.AboveMinimum]; decide)).1

/-- A block of 4 bytes takes 8, and freeing it leaves the amount in use four bytes below
zero. -/
theorem used_amount_below_zero :
    ∃ s, Run Step (boot onePage 0 [] []) [.allocate 4, .free 0xC000000C] s ∧
      s.live = [] ∧ s.heap.usedMemoryAmount = 0xFFFFFFFC := by
  have hFirst := Run.single
    (@Step.allocate (boot onePage 0 [] []) 4 0xC000000C _ (by decide) rfl)
  have run := Run.snoc hFirst (@Step.free _ (0xC000000C, 4) _ (by decide) rfl)
  exact ⟨_, run, rfl, rfl⟩

end Amount

section Limit

/-- The call meets the limit of the heap as it is before the call. -/
def Op.Limited (s : System) : Op → Prop
  | .allocate size => size + headerSize < wordSize ∧ s.heap.WithinLimit size
  | .free _ => True

def LimitedStep (s : System) (op : Op) (t : System) : Prop := Step s op t ∧ op.Limited s

theorem Op.Limited.addressable {s : System} {op : Op} (h : op.Limited s) : op.Addressable := by
  cases op with
  | allocate size => exact h.1
  | free mem => trivial

theorem BelowMaximum.trans {first second third : KernelHeap} (h : BelowMaximum first second)
    (h' : BelowMaximum second third) : BelowMaximum first third := by
  refine ⟨h'.heapEnd_le, fun v hv => ?_⟩
  rcases h'.pages v hv with hOld | hNew
  · exact h.pages v hOld
  · exact .inr hNew

structure Bounded (start s : System) : Prop where
  managed : ∃ chunks, Managed s.heap s.live chunks
  below : BelowMaximum start.heap s.heap

theorem Bounded.step {start s t : System} {op : Op} (h : Bounded start s)
    (hStep : LimitedStep s op t) : Bounded start t := by
  obtain ⟨chunks, hManaged⟩ := h.managed
  obtain ⟨hStep, hOp⟩ := hStep
  refine ⟨hStep.managed hOp.addressable hManaged, ?_⟩
  rcases hStep.spec hOp.addressable hManaged with
    ⟨size, address, rfl, -, -, hBelow⟩ | ⟨_, _, _, _, _, hEnd, hPages, _⟩
  · exact h.below.trans (hBelow h.below.heapEnd_le hOp.2)
  · refine h.below.trans ⟨hEnd ▸ h.below.heapEnd_le, fun v hv => .inl (hPages ▸ hv)⟩

/-- In every history of requests that are served before the heap would grow over its maximum end,
the heap ends below that and has no pages behind it; every further request ends with a block or a
panic, and below the maximum again under the same condition. -/
theorem heap_stays_below_maximum {area : Area} (hArea : area.stop ≤ kernelHeapMaximumEnd)
    {freePages : Nat} {tables pages : List Nat} {ops : List Op} {s : System}
    (run : Run LimitedStep (boot area freePages tables pages) ops s) :
    (s.heap.heapEnd ≤ kernelHeapMaximumEnd ∧
      ∀ v ∈ s.heap.pages, v ∈ pages ∨ v + pageSize ≤ kernelHeapMaximumEnd) ∧
    ∀ size, size + headerSize < wordSize → ∃ heap,
      ((∃ address, s.heap.allocate size = .ok address heap) ∨
        s.heap.allocate size = .error .panic heap) ∧
      (s.heap.WithinLimit size → heap.heapEnd ≤ kernelHeapMaximumEnd ∧
        ∀ v ∈ heap.pages, v ∈ pages ∨ v + pageSize ≤ kernelHeapMaximumEnd) := by
  have h : Bounded (boot area freePages tables pages) s := by
    refine run.invariant ?_ fun _ _ _ hBounded => hBounded.step
    exact ⟨⟨_, boot_managed area freePages tables pages⟩, hArea, fun _ => .inl⟩
  obtain ⟨chunks, hManaged⟩ := h.managed
  refine ⟨⟨h.below.heapEnd_le, h.below.pages⟩, fun size hSize => ?_⟩
  obtain ⟨heap, hOutcome, hBelow⟩ := hManaged.allocate_ends hSize
  refine ⟨heap, hOutcome.imp_left fun ⟨address, hOk, _⟩ => ⟨address, hOk⟩, fun hLimit => ?_⟩
  have hBoth := h.below.trans (hBelow h.below.heapEnd_le hLimit)
  exact ⟨hBoth.heapEnd_le, hBoth.pages⟩

/-- A request for two pages is served after one expansion. -/
theorem heap_stays_below_maximum_two_pages :
    ∃ heap, ((∃ address, (boot onePage 300 [] []).heap.allocate 0x2000 = .ok address heap) ∨
        (boot onePage 300 [] []).heap.allocate 0x2000 = .error .panic heap) ∧
      heap.heapEnd ≤ kernelHeapMaximumEnd := by
  have hAll := heap_stays_below_maximum (show onePage.stop ≤ kernelHeapMaximumEnd by decide)
    (Run.nil (boot onePage 300 [] []))
  obtain ⟨heap, hOutcome, hBelow⟩ := hAll.2 0x2000 (by decide)
  refine ⟨heap, hOutcome, (hBelow (.inr ⟨1, by decide, ?_⟩)).1⟩
  decide

/-- A chunk in use that is its own successor keeps the search going. -/
theorem findFit_circle {memory : Nat → ChunkHeader} {current : Nat} (size : Nat)
    (hUsed : (memory current).used = true) (hNext : (memory current).next = current)
    (hNe : current ≠ 0) (fuel : Nat) : findFit memory size fuel current = none := by
  induction fuel with
  | zero => rfl
  | succ fuel ih => simp [findFit, hUsed, hNext, hNe, ih]

theorem allocate_circle {heap : KernelHeap} (size : Nat) (hInit : heap.kernelHeapInitialized = true)
    (hFirst : heap.allocator.first ≠ 0)
    (hUsed : (heap.allocator.memory heap.allocator.first).used = true)
    (hNext : (heap.allocator.memory heap.allocator.first).next = heap.allocator.first) :
    heap.allocate size = .error .hang heap := by
  show allocateWith size (4095 + 1) heap = _
  have hNone : ChunkAllocator.allocate heap.allocator size = none := by
    simp [ChunkAllocator.allocate, hFirst, findFit_circle _ hUsed hNext hFirst]
  simp [allocateWith, hInit, hNone]

def lastPage : Area := ⟨0xDFFFF000, 0xE0000000, by decide, by decide, by decide⟩

/-- A heap that ends at the maximum grows by one step more. A request of which nothing is
left in 32 bits makes a chunk its own successor, and no request after it comes back. -/
theorem heap_grows_over_maximum :
    (∃ address heap, (boot lastPage 300 [] []).heap.allocate 0x2000 = .ok address heap ∧
      heap.heapEnd = 0xE0100000 ∧ 0xE0000000 ∈ heap.pages) ∧
    ∃ s, Run Step (boot onePage 300 [] []) [.allocate 0xFFFFFFF4] s ∧
      s.heap.allocate 8 = .error .hang s.heap := by
  constructor
  · have hGrown : (match (boot lastPage 300 [] []).heap.allocate 0x2000 with
        | .ok _ heap => heap.heapEnd == 0xE0100000 && heap.pages.contains 0xE0000000
        | .error _ _ => false) = true := by decide +kernel
    cases hOutcome : (boot lastPage 300 [] []).heap.allocate 0x2000 with
    | ok address heap =>
      rw [hOutcome] at hGrown
      exact ⟨address, heap, rfl, by simpa using hGrown⟩
    | error reason heap =>
      rw [hOutcome] at hGrown
      cases hGrown
  · have run := Run.single
      (@Step.allocate (boot onePage 300 [] []) 0xFFFFFFF4 0xC000000C _ (by decide) rfl)
    refine ⟨_, run, ?_⟩
    exact allocate_circle 8 rfl (by decide) rfl rfl

end Limit

end Kernel.KernelHeap
