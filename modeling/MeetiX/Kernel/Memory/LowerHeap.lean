import MeetiX.Kernel.Memory.ChunkHistory
import MeetiX.Kernel.Tasking.Processes

/-! The heap below 1 MiB takes any size that drivers pass. The room for a request is computed in
32 bits: a size that runs over looks small and is served by a chunk that is not large enough. -/
namespace Kernel.ChunkAllocator

open Base

/-- The answer to a request is null, or a block of at least the requested size in the
arena that is apart from all blocks in use. -/
def Ledger.ServesInside (l : Ledger) (size : Nat) : Prop :=
  ∃ address a, allocate l.allocator size = some (address, a) ∧
    (address = 0 ∨
      size ≤ ({ l with allocator := a } : Ledger).blockSize address ∧
      l.start + headerSize ≤ address ∧
      address + ({ l with allocator := a } : Ledger).blockSize address ≤ l.stop ∧
      ∀ b ∈ l.live, b.1 + l.blockSize b.1 ≤ address ∨
        address + ({ l with allocator := a } : Ledger).blockSize address ≤ b.1)

section Requests

variable {l : Ledger} {chunks : List Chunk} {size : Nat}

theorem Managed.servesInside (h : Managed l chunks) (hSize : size + headerSize < wordSize) :
    l.ServesInside size := by
  obtain ⟨address, a, hAllocate⟩ :
      ∃ address a, ChunkAllocator.allocate l.allocator size = some (address, a) := by
    rcases h.arena.allocate hSize with ⟨hNone, -⟩ | ⟨_, _, _, _, _, _, hSome, _⟩
    · exact ⟨_, _, hNone⟩
    · exact ⟨_, _, hSome⟩
  refine ⟨address, a, hAllocate, ?_⟩
  by_cases hAddress : address = 0
  · exact .inl hAddress
  obtain ⟨chunks', hManaged, hSizes, -⟩ := h.allocate hSize hAllocate
  simp only [hAddress] at hManaged hSizes
  obtain ⟨hLow, hHigh, hLarge⟩ := hManaged.inside List.mem_cons_self
  refine .inr ⟨hLarge, hLow, hHigh, fun b hb => ?_⟩
  have hApart := (List.pairwise_cons.mp hManaged.pairwise_apart).1 b hb
  rw [hSizes b hb] at hApart
  exact hApart.symm

/-- A request whose size runs over is served by any free chunk that has room for what
is left of the sum, and such a block ends behind the arena. -/
theorem Managed.servesInside_wrapped (h : Managed l chunks) (hWord : size < wordSize)
    (hSize : wordSize ≤ size + headerSize) :
    l.ServesInside size ↔ ∀ c ∈ chunks, c.used = true ∨ c.size < size + headerSize - wordSize := by
  have hLarge : ¬ size < minimumAllocationSize := by
    have hMinimum : minimumAllocationSize + headerSize < wordSize := by decide
    omega
  have hWrap : wrap32 (size + headerSize) = size + headerSize - wordSize := by
    have hHeaderLt : headerSize < wordSize := by decide
    unfold wrap32
    rw [Nat.mod_eq_sub_mod hSize, Nat.mod_eq_of_lt (by omega)]
  have hFind := @findFit_eq _ _ _ _ _ _ size h.arena.laid h.arena.nonempty
    (Nat.le_of_lt (h.arena.laid.length_lt h.arena.stop_lt))
  unfold Ledger.ServesInside
  simp only [ChunkAllocator.allocate, h.arena.first_ne_zero, if_false, hLarge, hFind]
  cases hFound : chunks.find? (fitsWrapped size) with
  | none =>
    refine ⟨fun _ c hc => ?_, fun _ => ⟨0, l.allocator, by simp, .inl rfl⟩⟩
    have hFits := List.find?_eq_none.mp hFound c hc
    simp only [fitsWrapped, hWrap, Bool.and_eq_true, Bool.not_eq_true', decide_eq_true_eq,
      not_and, Nat.not_le] at hFits
    cases hUsed : c.used with
    | true => exact .inl rfl
    | false => exact .inr (hFits hUsed)
  | some c =>
    have hc : c ∈ chunks := List.mem_of_find?_eq_some hFound
    obtain ⟨hLow, hHigh⟩ := h.arena.bounds hc
    have hStart := h.arena.start_pos
    have hStop := h.arena.stop_lt
    simp only [Chunk.stop] at hHigh
    have hNe : c.address ≠ 0 := by omega
    have hPayload : wrap32 (c.address + headerSize) = c.address + headerSize :=
      wrap32_of_lt (by omega)
    have hFits := List.find?_some hFound
    simp only [fitsWrapped, Bool.and_eq_true, Bool.not_eq_true', decide_eq_true_eq] at hFits
    refine iff_of_false ?_ ?_
    · simp only [Option.map_some, Option.getD_some, hNe]
      rintro ⟨address, a, ⟨rfl, rfl⟩, hZero | ⟨hServed, -, hInside, -⟩⟩
      · omega
      · omega
    · intro hAll
      rcases hAll c hc with hUsed | hSmall
      · rw [hFits.1] at hUsed
        cases hUsed
      · omega

end Requests

/-- Every request below the limit of 32 bits is served inside the arena. One that runs
over is if and only if no chunk is found for it. -/
theorem serves_inside_iff {ops : List Op} {l : Ledger} (run : Run Step Ledger.initial ops l)
    {size : Nat} (hWord : size < wordSize) :
    l.ServesInside size ↔ size + headerSize < wordSize ∨
      ∀ c ∈ l.allocator.chunks, c.used = true ∨ c.size < size + headerSize - wordSize := by
  rcases run_invariant run with ⟨hFirst, -⟩ | ⟨chunks, hManaged⟩
  · have hNone : l.allocator.chunks = [] := by
      simp [ChunkAllocator.chunks, hFirst, chunkLimit, wordSize, chunkList]
    refine iff_of_true ⟨0, l.allocator, by simp [allocate, hFirst], .inl rfl⟩ (.inr ?_)
    simp [hNone]
  · rw [hManaged.arena.chunks_eq]
    by_cases hSize : size + headerSize < wordSize
    · exact iff_of_true (hManaged.servesInside hSize) (.inl hSize)
    · rw [hManaged.servesInside_wrapped hWord (Nat.not_lt.mp hSize)]
      exact ⟨.inr, fun hEither => hEither.resolve_left hSize⟩

end Kernel.ChunkAllocator

namespace Kernel.LowerHeap

open ChunkAllocator

def lowerHeapMemoryStart : Nat := 0x7E00

def lowerHeapMemoryEnd : Nat := 0x7FFFF

/-- `LowerHeap::allocate`. The size arrives as a signed number and is read as an
unsigned one by the allocator, which leaves its bits alone. -/
def allocate (a : ChunkAllocator) (size : Nat) : Option (Nat × ChunkAllocator) :=
  ChunkAllocator.allocate a size

/-- The call `lowerMalloc`, for drivers only. -/
def lowerMalloc (level : SecurityLevel) (a : ChunkAllocator) (size : Nat) :
    Option (Nat × ChunkAllocator) :=
  if level ≤ securityLevelDriver then allocate a size else some (0, a)

end Kernel.LowerHeap

namespace Kernel.ChunkAllocator

open Base LowerHeap

/-- A driver gets 20 bytes of the lower heap. -/
theorem serves_inside_iff_driver :
    ∃ l, Run Step Ledger.initial [.initializeArea lowerHeapMemoryStart lowerHeapMemoryEnd] l ∧
      lowerMalloc securityLevelDriver l.allocator 20 = allocate l.allocator 20 ∧
      l.ServesInside 20 := by
  have run := Run.single (@Step.initializeArea Ledger.initial lowerHeapMemoryStart lowerHeapMemoryEnd
    (by decide) (by decide) (by decide))
  exact ⟨_, run, rfl, (serves_inside_iff run (by decide)).mpr (.inl (by decide))⟩

/-- A driver asks for all but 8 of the 4 GiB and gets a block that begins in the lower
heap. -/
theorem driver_gets_four_gigabytes :
    ∃ l, Run Step Ledger.initial [.initializeArea lowerHeapMemoryStart lowerHeapMemoryEnd] l ∧
      ∃ address a, lowerMalloc securityLevelDriver l.allocator 0xFFFFFFF8 = some (address, a) ∧
        address ≠ 0 ∧ l.stop < address + 0xFFFFFFF8 ∧ ¬ l.ServesInside 0xFFFFFFF8 := by
  have run := Run.single (@Step.initializeArea Ledger.initial lowerHeapMemoryStart lowerHeapMemoryEnd
    (by decide) (by decide) (by decide))
  refine ⟨_, run, 0x7E0C, _, rfl, by decide, by decide, ?_⟩
  rintro ⟨address, a, hAllocate, hServed⟩
  cases hAllocate
  revert hServed
  decide

end Kernel.ChunkAllocator
