import MeetiX.Kernel.Memory.ChunkHistory

/-! The kernel heap: a chunk allocator whose arena grows when a request finds no chunk. Of
physical memory the model has the number of pages that are left, of the address space the page
tables and the pages in use, also those of an expansion that stopped. -/
namespace Kernel

open ChunkAllocator Base.Coalesce List

def kernelHeapMaximumEnd : Nat := 0xE0000000

def kernelHeapExpandStep : Nat := 0x100000

structure KernelHeap where
  allocator : ChunkAllocator
  heapStart : Nat
  heapEnd : Nat
  usedMemoryAmount : Nat
  kernelHeapInitialized : Bool
  /-- The physical pages that are left. -/
  freePages : Nat
  /-- The indices of the page tables. -/
  tables : List Nat
  /-- The virtual addresses of the mapped pages. -/
  pages : List Nat

namespace KernelHeap

inductive Stop
  | panic
  /-- A loop over the chunks does not end. -/
  | hang
  deriving DecidableEq

/-- A call that stops leaves a heap behind as well. -/
abbrev Outcome (Value : Type) := EStateM.Result Stop KernelHeap Value

/-- The static variables before the first call. -/
def new (freePages : Nat) (tables pages : List Nat) : KernelHeap :=
  ⟨ChunkAllocator.empty, 0, 0, 0, false, freePages, tables, pages⟩

def initializeHeap (heap : KernelHeap) (start stop : Nat) : KernelHeap :=
  { heap with
    allocator := initializeArea heap.allocator start stop
    heapStart := start
    heapEnd := stop
    kernelHeapInitialized := true }

/-- `PPallocator::allocate`, which panics when no page is left. -/
def takePage (heap : KernelHeap) : Outcome Unit :=
  if heap.freePages = 0 then .error .panic heap
  else .ok () { heap with freePages := heap.freePages - 1 }

def tableInDirectoryIndex (v : Nat) : Nat := v / (1024 * pageSize)

/-- The part of `AddressSpace::map` that creates a page table where there is none. -/
def ensureTable (heap : KernelHeap) (v : Nat) : Outcome Unit :=
  if tableInDirectoryIndex v ∈ heap.tables then .ok () heap
  else
    match heap.takePage with
    | .error reason heap => .error reason heap
    | .ok _ heap => .ok () { heap with tables := tableInDirectoryIndex v :: heap.tables }

/-- `AddressSpace::map` of a page. A page that is mapped stays as it is. -/
def map (heap : KernelHeap) (v : Nat) : Outcome Unit :=
  if v % pageSize ≠ 0 then .error .panic heap
  else
    match heap.ensureTable v with
    | .error reason heap => .error reason heap
    | .ok _ heap =>
      .ok () { heap with pages := if v ∈ heap.pages then heap.pages else v :: heap.pages }

/-- The loop of `expandHeap` over the new pages. -/
def mapPages : List Nat → KernelHeap → Outcome Unit
  | [], heap => .ok () heap
  | v :: rest, heap =>
    match heap.takePage with
    | .error reason heap => .error reason heap
    | .ok _ heap =>
      match heap.map v with
      | .error reason heap => .error reason heap
      | .ok _ heap => mapPages rest heap

/-- The values of `v` in the loop. Below the maximum end of the heap nothing runs over. -/
def expansionPages (heapEnd : Nat) : List Nat :=
  (range (kernelHeapExpandStep / pageSize)).map fun i => heapEnd + i * pageSize

def expandHeap (heap : KernelHeap) : Outcome Bool :=
  if heap.heapEnd > kernelHeapMaximumEnd then .ok false heap
  else
    match mapPages (expansionPages heap.heapEnd) heap with
    | .error reason heap => .error reason heap
    | .ok _ heap =>
      match expand heap.allocator kernelHeapExpandStep with
      | none => .error .hang heap
      | some allocator =>
        .ok true { heap with
          allocator := allocator
          heapEnd := wrap32 (heap.heapEnd + kernelHeapExpandStep) }

/-- `allocate`, which calls itself again after an expansion. -/
def allocateWith (size : Nat) : Nat → KernelHeap → Outcome Nat
  | 0, heap => .error .hang heap
  | fuel + 1, heap =>
    if !heap.kernelHeapInitialized then .error .panic heap
    else
      match ChunkAllocator.allocate heap.allocator size with
      | none => .error .hang heap
      | some (allocated, allocator) =>
        if allocated ≠ 0 then
          .ok allocated { heap with
            allocator := allocator
            usedMemoryAmount := wrap32 (heap.usedMemoryAmount + size) }
        else
          match expandHeap { heap with allocator := allocator } with
          | .error reason heap => .error reason heap
          | .ok false heap => .error .panic heap
          | .ok true heap => allocateWith size fuel heap

/-- As many calls as there are steps in the address space. -/
def callLimit : Nat := wordSize / kernelHeapExpandStep

def allocate (heap : KernelHeap) (size : Nat) : Outcome Nat := allocateWith size callLimit heap

def free (heap : KernelHeap) (mem : Nat) : Outcome Unit :=
  if !heap.kernelHeapInitialized then .error .panic heap
  else
    match ChunkAllocator.free heap.allocator mem with
    | none => .error .hang heap
    | some (size, allocator) =>
      .ok () { heap with
        allocator := allocator
        usedMemoryAmount := sub32 heap.usedMemoryAmount size }

/-- The heap as an arena with the blocks in use. -/
def ledger (heap : KernelHeap) (live : List (Nat × Nat)) : Ledger :=
  ⟨heap.allocator, heap.heapStart, heap.heapEnd, live⟩

/-- The heap is in use, and its blocks are chunks of its arena. -/
structure Managed (heap : KernelHeap) (live : List (Nat × Nat)) (chunks : List Chunk) : Prop where
  initialized : heap.kernelHeapInitialized = true
  arena : ChunkAllocator.Managed (heap.ledger live) chunks

/-- Mapping pages changes nothing but the memory that is left, the tables and the
pages. -/
structure Maps (pages : List Nat) (heap heap' : KernelHeap) : Prop where
  allocator_eq : heap'.allocator = heap.allocator
  heapStart_eq : heap'.heapStart = heap.heapStart
  heapEnd_eq : heap'.heapEnd = heap.heapEnd
  used_eq : heap'.usedMemoryAmount = heap.usedMemoryAmount
  initialized_eq : heap'.kernelHeapInitialized = heap.kernelHeapInitialized
  pages_sub : ∀ v ∈ heap'.pages, v ∈ heap.pages ∨ v ∈ pages

/-- A call succeeds or panics, and in both cases has only mapped pages. -/
def MapsOrPanics {Value : Type} (pages : List Nat) (heap : KernelHeap) (outcome : Outcome Value) :
    Prop :=
  ∃ heap', Maps pages heap heap' ∧
    ((∃ value, outcome = .ok value heap') ∨ outcome = .error .panic heap')

section Mapping

variable {heap heap' heap'' : KernelHeap} {pages : List Nat} {v : Nat}

theorem Maps.refl (heap : KernelHeap) : Maps pages heap heap :=
  ⟨rfl, rfl, rfl, rfl, rfl, fun _ => .inl⟩

theorem Maps.trans (h : Maps pages heap heap') (h' : Maps pages heap' heap'') :
    Maps pages heap heap'' where
  allocator_eq := h'.allocator_eq.trans h.allocator_eq
  heapStart_eq := h'.heapStart_eq.trans h.heapStart_eq
  heapEnd_eq := h'.heapEnd_eq.trans h.heapEnd_eq
  used_eq := h'.used_eq.trans h.used_eq
  initialized_eq := h'.initialized_eq.trans h.initialized_eq
  pages_sub := by
    intro v hv
    rcases h'.pages_sub v hv with hOld | hNew
    · exact h.pages_sub v hOld
    · exact .inr hNew

theorem takePage_maps (heap : KernelHeap) : MapsOrPanics pages heap heap.takePage := by
  by_cases hFree : heap.freePages = 0
  · exact ⟨heap, Maps.refl _, .inr (by simp [takePage, hFree])⟩
  · refine ⟨{ heap with freePages := heap.freePages - 1 }, ?_, .inl ⟨(), by simp [takePage, hFree]⟩⟩
    exact ⟨rfl, rfl, rfl, rfl, rfl, fun _ => .inl⟩

theorem ensureTable_maps (heap : KernelHeap) (v : Nat) :
    MapsOrPanics pages heap (heap.ensureTable v) := by
  unfold ensureTable
  split
  · exact ⟨heap, Maps.refl _, .inl ⟨(), rfl⟩⟩
  obtain ⟨heap', hMaps, ⟨_, hTaken⟩ | hPanic⟩ := heap.takePage_maps
  · rw [hTaken]
    refine ⟨{ heap' with tables := tableInDirectoryIndex v :: heap'.tables }, ?_, .inl ⟨(), rfl⟩⟩
    exact hMaps.trans ⟨rfl, rfl, rfl, rfl, rfl, fun _ => .inl⟩
  · rw [hPanic]
    exact ⟨heap', hMaps, .inr rfl⟩

theorem map_maps (heap : KernelHeap) (hv : v ∈ pages) : MapsOrPanics pages heap (heap.map v) := by
  unfold map
  split
  · exact ⟨heap, Maps.refl _, .inr rfl⟩
  obtain ⟨heap', hMaps, ⟨_, hTable⟩ | hPanic⟩ := heap.ensureTable_maps v
  · rw [hTable]
    refine ⟨{ heap' with pages := if v ∈ heap'.pages then heap'.pages else v :: heap'.pages }, ?_,
      .inl ⟨(), rfl⟩⟩
    refine hMaps.trans ⟨rfl, rfl, rfl, rfl, rfl, fun w hw => ?_⟩
    split at hw
    · exact .inl hw
    · rcases mem_cons.mp hw with rfl | hOld
      · exact .inr hv
      · exact .inl hOld
  · rw [hPanic]
    exact ⟨heap', hMaps, .inr rfl⟩

theorem mapPages_maps (rest : List Nat) (heap : KernelHeap) (hRest : ∀ v ∈ rest, v ∈ pages) :
    MapsOrPanics pages heap (mapPages rest heap) := by
  induction rest generalizing heap with
  | nil => exact ⟨heap, Maps.refl _, .inl ⟨(), rfl⟩⟩
  | cons v rest ih =>
    obtain ⟨hv, hRest⟩ := forall_mem_cons.mp hRest
    rw [mapPages]
    obtain ⟨taken, hTake, ⟨_, hTaken⟩ | hPanic⟩ := heap.takePage_maps
    · rw [hTaken]
      obtain ⟨mapped, hMap, ⟨_, hMapped⟩ | hPanic⟩ := taken.map_maps hv
      · obtain ⟨heap', hLoop, hOutcome⟩ := ih mapped hRest
        simp only [hMapped]
        exact ⟨heap', hTake.trans (hMap.trans hLoop), hOutcome⟩
      · simp only [hPanic]
        exact ⟨mapped, hTake.trans hMap, .inr rfl⟩
    · rw [hPanic]
      exact ⟨taken, hTake, .inr rfl⟩

theorem mem_expansionPages {heapEnd : Nat} (hv : v ∈ expansionPages heapEnd) :
    v + pageSize ≤ heapEnd + kernelHeapExpandStep := by
  obtain ⟨i, hi, rfl⟩ := mem_map.mp hv
  have hLt := mem_range.mp hi
  unfold pageSize at *
  omega

end Mapping

/-- The pages of the heap end below a limit, except for those that were there before. -/
def PagesBelow (heap heap' : KernelHeap) (limit : Nat) : Prop :=
  ∀ v ∈ heap'.pages, v ∈ heap.pages ∨ v + pageSize ≤ limit

structure Expanded (heap heap' : KernelHeap) (live : List (Nat × Nat)) (chunks : List Chunk) :
    Prop where
  managed : Managed heap' live
    (coalesce bothFree joined
      (chunks ++ [⟨heap.heapEnd, false, kernelHeapExpandStep - headerSize⟩]))
  heapEnd_eq : heap'.heapEnd = heap.heapEnd + kernelHeapExpandStep
  used_eq : heap'.usedMemoryAmount = heap.usedMemoryAmount
  sizes : ∀ b ∈ live, (heap'.ledger live).blockSize b.1 = (heap.ledger live).blockSize b.1
  pages : PagesBelow heap heap' (heap.heapEnd + kernelHeapExpandStep)

variable {chunks : List Chunk} {heap : KernelHeap} {live : List (Nat × Nat)} {size : Nat}

/-- An expansion is refused at the maximum end, panics without memory, or adds a free
chunk behind the heap. -/
theorem Managed.expandHeap_cases (h : Managed heap live chunks) :
    (kernelHeapMaximumEnd < heap.heapEnd ∧ heap.expandHeap = .ok false heap) ∨
    (∃ heap', heap.expandHeap = .error .panic heap' ∧ heap'.heapEnd = heap.heapEnd ∧
      PagesBelow heap heap' (heap.heapEnd + kernelHeapExpandStep)) ∨
    (heap.heapEnd ≤ kernelHeapMaximumEnd ∧
      ∃ heap', heap.expandHeap = .ok true heap' ∧ Expanded heap heap' live chunks) := by
  by_cases hEnd : heap.heapEnd > kernelHeapMaximumEnd
  · exact .inl ⟨hEnd, by simp [expandHeap, hEnd]⟩
  right
  have hLe := Nat.not_lt.mp hEnd
  obtain ⟨heap', hMaps, hOutcome⟩ :=
    mapPages_maps (expansionPages heap.heapEnd) heap fun _ => id
  have hPages : PagesBelow heap heap' (heap.heapEnd + kernelHeapExpandStep) := fun v hv =>
    (hMaps.pages_sub v hv).imp_right mem_expansionPages
  rcases hOutcome with ⟨_, hMapped⟩ | hPanic
  · right
    have hRoom : heap.heapEnd + kernelHeapExpandStep < wordSize := by
      unfold kernelHeapMaximumEnd at hLe
      unfold kernelHeapExpandStep wordSize
      omega
    obtain ⟨allocator, hExpand, -⟩ := h.arena.arena.expand (by decide) hRoom
    obtain ⟨hManaged, hSizes⟩ := h.arena.expand (by decide) hRoom hExpand
    refine ⟨hLe, { heap' with
      allocator := allocator, heapEnd := wrap32 (heap'.heapEnd + kernelHeapExpandStep) }, ?_, ?_⟩
    · have hExpand' : expand heap'.allocator kernelHeapExpandStep = some allocator := by
        rw [hMaps.allocator_eq]
        exact hExpand
      simp [expandHeap, hEnd, hMapped, hExpand']
    · have hEnd' : wrap32 (heap'.heapEnd + kernelHeapExpandStep) =
          heap.heapEnd + kernelHeapExpandStep := by
        rw [hMaps.heapEnd_eq, wrap32_of_lt hRoom]
      have hLedger : ledger { heap' with
          allocator := allocator, heapEnd := wrap32 (heap'.heapEnd + kernelHeapExpandStep) } live =
          { heap.ledger live with
            allocator := allocator, stop := heap.heapEnd + kernelHeapExpandStep } := by
        simp only [ledger, hEnd', hMaps.heapStart_eq]
      refine ⟨⟨hMaps.initialized_eq.trans h.initialized, ?_⟩, hEnd', hMaps.used_eq, ?_, hPages⟩
      · rw [hLedger]
        exact hManaged
      · exact hSizes
  · left
    exact ⟨heap', by simp [expandHeap, hEnd, hPanic], hMaps.heapEnd_eq, hPages⟩

/-- The bytes at the end of the heap that are free, with the header of their chunk. -/
def trailingRoom (chunks : List Chunk) : Nat :=
  match chunks.getLast? with
  | none => 0
  | some c => if c.used then 0 else headerSize + c.size

/-- An expansion makes the last chunk free and larger by the step. -/
theorem trailingRoom_coalesce {stop : Nat} (hNonempty : chunks ≠ [])
    (hSwept : chunks.IsChain fun a b => bothFree a b = false) :
    trailingRoom (coalesce bothFree joined (chunks ++ [⟨stop, false, size⟩])) =
      trailingRoom chunks + (headerSize + size) := by
  obtain ⟨before, c, rfl⟩ : ∃ before c, chunks = before ++ [c] := by
    rcases eq_nil_or_concat chunks with hNil | ⟨before, c, hConcat⟩
    · exact absurd hNil hNonempty
    · exact ⟨before, c, by rw [hConcat, concat_eq_append]⟩
  cases hUsed : c.used with
  | true =>
    have hChain : (before ++ [c] ++ [(⟨stop, false, size⟩ : Chunk)]).IsChain
        fun a b => bothFree a b = false := by
      refine isChain_append.mpr ⟨hSwept, List.IsChain.singleton _, ?_⟩
      simp [bothFree, hUsed]
    have hSame : coalesce bothFree joined (before ++ [c] ++ [⟨stop, false, size⟩]) =
        before ++ [c] ++ [⟨stop, false, size⟩] := by
      cases before <;> exact sweep_eq_self _ _ hChain
    rw [hSame]
    simp [trailingRoom, hUsed]
  | false =>
    rw [append_assoc, singleton_append,
      coalesce_append_cons_cons (by simp [bothFree, hUsed]) hSwept (List.IsChain.singleton _)]
    simp [trailingRoom, hUsed, joined]
    omega

theorem exists_fits_of_trailingRoom
    (h : size + 2 * headerSize ≤ trailingRoom chunks) : ∃ c ∈ chunks, fits size c = true := by
  have hHeader : headerSize = 12 := rfl
  unfold trailingRoom at h
  cases hLast : chunks.getLast? with
  | none =>
    rw [hLast] at h
    dsimp only at h
    omega
  | some c =>
    rw [hLast] at h
    dsimp only at h
    cases hUsed : c.used with
    | true =>
      rw [hUsed, if_pos rfl] at h
      omega
    | false =>
      rw [hUsed, if_neg Bool.false_ne_true] at h
      exact ⟨c, mem_of_getLast? hLast, fits_iff.mpr ⟨hUsed, by omega⟩⟩

/-- A request of this size is served before an expansion would take the heap over its
maximum end. -/
def WithinLimit (heap : KernelHeap) (size : Nat) : Prop :=
  (∃ c ∈ heap.allocator.chunks, fits (max size minimumAllocationSize) c = true) ∨
  ∃ steps, heap.heapEnd + steps * kernelHeapExpandStep ≤ kernelHeapMaximumEnd ∧
    max size minimumAllocationSize + 2 * headerSize ≤
      trailingRoom heap.allocator.chunks + steps * kernelHeapExpandStep

section Requests

variable {heap heap' : KernelHeap} {live : List (Nat × Nat)} {chunks : List Chunk} {size : Nat}

theorem Managed.chunks_eq (h : Managed heap live chunks) : heap.allocator.chunks = chunks :=
  h.arena.arena.chunks_eq

/-- Where no chunk fits, there is room for one expansion, and the request is within the
limit of the expanded heap. -/
theorem WithinLimit.expanded (hLimit : heap.WithinLimit size) (h : Managed heap live chunks)
    (hNone : ∀ c ∈ chunks, fits (max size minimumAllocationSize) c = false) :
    heap.heapEnd + kernelHeapExpandStep ≤ kernelHeapMaximumEnd ∧
      ∀ heap', Expanded heap heap' live chunks → heap'.WithinLimit size := by
  unfold WithinLimit at hLimit
  rw [h.chunks_eq] at hLimit
  rcases hLimit with ⟨c, hc, hFits⟩ | ⟨steps, hEnd, hRoom⟩
  · rw [hNone c hc] at hFits
    cases hFits
  cases steps with
  | zero =>
    obtain ⟨c, hc, hFits⟩ := exists_fits_of_trailingRoom hRoom
    rw [hNone c hc] at hFits
    cases hFits
  | succ steps =>
    rw [Nat.succ_mul steps] at hEnd hRoom
    refine ⟨by omega, fun heap' hExpanded => .inr ⟨steps, ?_, ?_⟩⟩
    · rw [hExpanded.heapEnd_eq]
      omega
    · have hStep : headerSize + (kernelHeapExpandStep - headerSize) = kernelHeapExpandStep := rfl
      rw [hExpanded.managed.chunks_eq,
        trailingRoom_coalesce h.arena.arena.nonempty h.arena.arena.swept]
      omega

structure Allocated (heap heap' : KernelHeap) (live : List (Nat × Nat)) (address size : Nat) :
    Prop where
  managed : ∃ chunks, Managed heap' ((address, size) :: live) chunks
  used_eq : heap'.usedMemoryAmount = wrap32 (heap.usedMemoryAmount + size)
  blockSize_eq : (heap'.ledger live).blockSize address = max size minimumAllocationSize
  sizes : ∀ b ∈ live, (heap'.ledger live).blockSize b.1 = (heap.ledger live).blockSize b.1

/-- The heap ends below the maximum and has no new page behind it. -/
structure BelowMaximum (heap heap' : KernelHeap) : Prop where
  heapEnd_le : heap'.heapEnd ≤ kernelHeapMaximumEnd
  pages : PagesBelow heap heap' kernelHeapMaximumEnd

/-- The chunk allocator has no chunk for the request, or the call is done. -/
theorem Managed.allocate_cases (h : Managed heap live chunks)
    (hSize : size + headerSize < wordSize) :
    (ChunkAllocator.allocate heap.allocator size = some (0, heap.allocator) ∧
      ∀ c ∈ chunks, fits (max size minimumAllocationSize) c = false) ∨
    ∃ address allocator, ChunkAllocator.allocate heap.allocator size = some (address, allocator) ∧
      address ≠ 0 ∧
      Allocated heap { heap with
        allocator := allocator
        usedMemoryAmount := wrap32 (heap.usedMemoryAmount + size) } live address size := by
  rcases h.arena.arena.allocate hSize with hNone | ⟨_, c, _, a, _, _, hSome, -⟩
  · exact .inl hNone
  · right
    have hNe : c.address + headerSize ≠ 0 := Nat.succ_ne_zero _
    obtain ⟨chunks', hManaged, hSizes, hStored⟩ := h.arena.allocate hSize hSome
    exact ⟨_, a, hSome, hNe, ⟨chunks', h.initialized, hManaged⟩, rfl, hStored hNe, hSizes⟩

/-- The allocation ends with a block or a panic. A request within the limit leaves the
heap below its maximum end in both cases. -/
def Ends (heap : KernelHeap) (live : List (Nat × Nat)) (size : Nat) (outcome : Outcome Nat) : Prop :=
  ∃ heap', ((∃ address, outcome = .ok address heap' ∧ Allocated heap heap' live address size) ∨
      outcome = .error .panic heap') ∧
    (heap.heapEnd ≤ kernelHeapMaximumEnd → heap.WithinLimit size → BelowMaximum heap heap')

variable (h : Managed heap live chunks)

include h

/-- One round of an allocation ends it, or leads to the same call on an expanded heap. -/
theorem Managed.allocateWith_cases (hSize : size + headerSize < wordSize) (fuel : Nat) :
    Ends heap live size (allocateWith size (fuel + 1) heap) ∨
      (∀ c ∈ chunks, fits (max size minimumAllocationSize) c = false) ∧
      heap.heapEnd ≤ kernelHeapMaximumEnd ∧
      ∃ heap', Expanded heap heap' live chunks ∧
        allocateWith size (fuel + 1) heap = allocateWith size fuel heap' := by
  rcases h.allocate_cases hSize with ⟨hRefused, hNone⟩ | ⟨address, allocator, hSome, hNe, hAllocated⟩
  · have hRound : allocateWith size (fuel + 1) heap =
        match heap.expandHeap with
        | .error reason heap => .error reason heap
        | .ok false heap => .error .panic heap
        | .ok true heap => allocateWith size fuel heap := by
      rw [KernelHeap.allocateWith, if_neg (by simp [h.initialized]), hRefused]
      rfl
    rcases h.expandHeap_cases with
      ⟨hFull, hRefused⟩ | ⟨heap', hPanic, hSame, hPages⟩ | ⟨hLow, heap', hOk, hExpanded⟩
    · exact .inl ⟨heap, .inr (by rw [hRound, hRefused]), fun hLe => absurd hLe (Nat.not_le.mpr hFull)⟩
    · refine .inl ⟨heap', .inr (by rw [hRound, hPanic]), fun hLe hLimit => ⟨hSame ▸ hLe, ?_⟩⟩
      intro v hv
      exact (hPages v hv).imp_right fun hPage => hPage.trans (hLimit.expanded h hNone).1
    · exact .inr ⟨hNone, hLow, heap', hExpanded, by rw [hRound, hOk]⟩
  · left
    refine ⟨_, .inl ⟨address, ?_, hAllocated⟩, fun hLe _ => ⟨hLe, fun _ => .inl⟩⟩
    simp [KernelHeap.allocateWith, h.initialized, hSome, hNe]

theorem Expanded.ends {middle : KernelHeap} {outcome : Outcome Nat}
    (hNone : ∀ c ∈ chunks, fits (max size minimumAllocationSize) c = false)
    (hExpanded : Expanded heap middle live chunks) (hEnds : Ends middle live size outcome) :
    Ends heap live size outcome := by
  obtain ⟨heap', hOutcome, hBelow⟩ := hEnds
  refine ⟨heap', hOutcome.imp_left ?_, fun _ hLimit => ?_⟩
  · rintro ⟨address, hOk, hAllocated⟩
    exact ⟨address, hOk, hAllocated.managed, by rw [hAllocated.used_eq, hExpanded.used_eq],
      hAllocated.blockSize_eq, fun b hb => (hAllocated.sizes b hb).trans (hExpanded.sizes b hb)⟩
  · obtain ⟨hRoom, hWithin⟩ := hLimit.expanded h hNone
    obtain ⟨hEnd, hPages⟩ :=
      hBelow (by rw [hExpanded.heapEnd_eq]; exact hRoom) (hWithin middle hExpanded)
    refine ⟨hEnd, fun v hv => ?_⟩
    rcases hPages v hv with hOld | hNew
    · exact (hExpanded.pages v hOld).imp_right fun hPage => hPage.trans hRoom
    · exact .inr hNew

/-- There are enough calls when they can take the heap over its maximum end. -/
theorem Managed.allocateWith_ends (hSize : size + headerSize < wordSize) {fuel : Nat}
    (hFuel : kernelHeapMaximumEnd < heap.heapEnd + fuel * kernelHeapExpandStep) :
    Ends heap live size (allocateWith size (fuel + 1) heap) := by
  induction fuel generalizing heap chunks with
  | zero =>
    rcases h.allocateWith_cases hSize 0 with hEnds | ⟨-, hLow, -⟩
    · exact hEnds
    · omega
  | succ fuel ih =>
    rcases h.allocateWith_cases hSize (fuel + 1) with hEnds | ⟨hNone, -, middle, hExpanded, hRound⟩
    · exact hEnds
    · rw [Nat.succ_mul] at hFuel
      rw [hRound]
      refine hExpanded.ends h hNone (ih hExpanded.managed ?_)
      rw [hExpanded.heapEnd_eq]
      omega

theorem Managed.allocate_ends
    (hSize : size + headerSize < wordSize) : Ends heap live size (heap.allocate size) := by
  apply h.allocateWith_ends hSize
  calc kernelHeapMaximumEnd < 4095 * kernelHeapExpandStep := by decide
    _ ≤ heap.heapEnd + 4095 * kernelHeapExpandStep := Nat.le_add_left _ _

end Requests

theorem Managed.free_spec
    {block : Nat × Nat} (h : Managed heap live chunks) (hBlock : block ∈ live) :
    ∃ heap' chunks', heap.free block.1 = .ok () heap' ∧ Managed heap' (live.erase block) chunks' ∧
      heap'.usedMemoryAmount =
        sub32 heap.usedMemoryAmount ((heap.ledger live).blockSize block.1) ∧
      heap'.heapEnd = heap.heapEnd ∧ heap'.pages = heap.pages ∧
      ∀ b ∈ live.erase block,
        (heap'.ledger (live.erase block)).blockSize b.1 = (heap.ledger live).blockSize b.1 := by
  obtain ⟨c, hc, -, hAddress, -⟩ := h.arena.blocks block hBlock
  obtain ⟨before, after, hSplit⟩ := append_of_mem hc
  obtain ⟨allocator, hFree, -⟩ := h.arena.arena.free hSplit
  rw [← hAddress] at hFree
  obtain ⟨chunks', hManaged, hSizes, hStored⟩ := h.arena.free hBlock hFree
  have hFree' : ChunkAllocator.free heap.allocator block.1 = some (c.size, allocator) := hFree
  refine ⟨{ heap with
      allocator := allocator, usedMemoryAmount := sub32 heap.usedMemoryAmount c.size },
    chunks', ?_, ⟨h.initialized, hManaged⟩, by rw [hStored], rfl, rfl, hSizes⟩
  simp [KernelHeap.free, h.initialized, hFree']

end KernelHeap

end Kernel
