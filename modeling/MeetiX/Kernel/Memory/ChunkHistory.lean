import MeetiX.Base.Run
import MeetiX.Kernel.Memory.ChunkArena

/-! Whole histories of a chunk allocator. The ledger keeps the limits of the
arena and the blocks that are in use with the sizes they were requested with. -/
namespace Kernel.ChunkAllocator

open Base Base.Linked Base.Coalesce List

inductive Op
  | initializeArea (start stop : Nat)
  | allocate (size : Nat)
  | free (address : Nat)
  | expand (size : Nat)
  deriving DecidableEq, Repr

structure Ledger where
  allocator : ChunkAllocator
  start : Nat
  stop : Nat
  /-- Address and requested size of the blocks in use. -/
  live : List (Nat × Nat)

def Ledger.initial : Ledger := ⟨ChunkAllocator.empty, 0, 0, []⟩

def Ledger.blockSize (l : Ledger) (address : Nat) : Nat :=
  (l.allocator.memory (address - headerSize)).size

/-- One call. An area has room for a header and ends below the address limit,
as does an expanded one; only blocks in use are freed. -/
inductive Step : Ledger → Op → Ledger → Prop
  | initializeArea {l : Ledger} {start stop : Nat} (hStart : 0 < start)
      (hRoom : start + headerSize ≤ stop) (hStop : stop < wordSize) :
      Step l (.initializeArea start stop) ⟨initializeArea l.allocator start stop, start, stop, []⟩
  | allocate {l : Ledger} {size address : Nat} {a : ChunkAllocator}
      (hSize : size + headerSize < wordSize)
      (hAllocate : allocate l.allocator size = some (address, a)) :
      Step l (.allocate size)
        { l with
          allocator := a
          live := if address = 0 then l.live else (address, size) :: l.live }
  | free {l : Ledger} {block : Nat × Nat} {size : Nat} {a : ChunkAllocator}
      (hBlock : block ∈ l.live) (hFree : free l.allocator block.1 = some (size, a)) :
      Step l (.free block.1) { l with allocator := a, live := l.live.erase block }
  | expand {l : Ledger} {size : Nat} {a : ChunkAllocator} (hSize : headerSize ≤ size)
      (hRoom : l.stop + size < wordSize) (hExpand : expand l.allocator size = some a) :
      Step l (.expand size) { l with allocator := a, stop := l.stop + size }

/-- The blocks in use are used chunks of the arena. -/
structure Managed (l : Ledger) (chunks : List Chunk) : Prop where
  arena : Arena l.allocator l.start l.stop chunks
  blocks : ∀ b ∈ l.live, ∃ c ∈ chunks, c.used = true ∧ b.1 = c.address + headerSize ∧ b.2 ≤ c.size
  nodup : (l.live.map Prod.fst).Nodup

namespace Managed

variable {l : Ledger} {chunks : List Chunk}

section

variable (h : Managed l chunks)

include h

theorem blockSize_eq {c : Chunk} (hc : c ∈ chunks) :
    l.blockSize (c.address + headerSize) = c.size := by
  exact (h.arena.laid.headers c hc).2

theorem chunk_eq {c d : Chunk} (hc : c ∈ chunks) (hd : d ∈ chunks)
    (hAddress : c.address = d.address) : c = d := by
  have hcStop := c.address_lt_stop
  have hdStop := d.address_lt_stop
  rcases h.arena.apart hc hd with hEq | hBefore | hAfter
  · exact hEq
  · omega
  · omega

theorem inside {b : Nat × Nat} (hb : b ∈ l.live) :
    l.start + headerSize ≤ b.1 ∧ b.1 + l.blockSize b.1 ≤ l.stop ∧ b.2 ≤ l.blockSize b.1 := by
  obtain ⟨c, hc, -, hAddress, hSize⟩ := h.blocks b hb
  obtain ⟨hLow, hHigh⟩ := h.arena.bounds hc
  rw [hAddress, h.blockSize_eq hc]
  simp only [Chunk.stop] at hHigh
  omega

theorem pairwise_apart :
    l.live.Pairwise fun b d => b.1 + l.blockSize b.1 ≤ d.1 ∨ d.1 + l.blockSize d.1 ≤ b.1 := by
  have hDistinct : l.live.Pairwise fun b d => b.1 ≠ d.1 := pairwise_map.mp h.nodup
  apply hDistinct.imp_of_mem
  intro b d hb hd hNe
  obtain ⟨c, hc, -, hcAddress, -⟩ := h.blocks b hb
  obtain ⟨e, he, -, heAddress, -⟩ := h.blocks d hd
  rw [hcAddress, heAddress, h.blockSize_eq hc, h.blockSize_eq he]
  rcases h.arena.apart hc he with hEq | hBefore | hAfter
  · exact absurd (by rw [hcAddress, heAddress, hEq]) hNe
  · simp only [Chunk.stop] at hBefore
    omega
  · simp only [Chunk.stop] at hAfter
    omega

/-- All blocks together are smaller than the address space. -/
theorem sum_blockSize_lt : (l.live.map fun b => l.blockSize b.1).sum < wordSize := by
  have hInside : ∀ b ∈ l.live, 0 ≤ b.1 ∧ b.1 + l.blockSize b.1 ≤ l.stop :=
    fun b hb => ⟨Nat.zero_le _, (h.inside hb).2.1⟩
  have hSum := sum_le_of_apart hInside h.pairwise_apart
  simp only [Nat.add_sub_cancel_left] at hSum
  exact hSum.trans_lt h.arena.stop_lt

/-- When the chunks of the remaining blocks stay in the list, the ledger stays
right and these blocks keep their sizes. -/
theorem transfer (l' : Ledger) {chunks' : List Chunk}
    (hArena : Arena l'.allocator l'.start l'.stop chunks') (hLive : l'.live.Sublist l.live)
    (hKeep : ∀ b ∈ l'.live, ∀ c ∈ chunks, c.used = true → b.1 = c.address + headerSize →
      c ∈ chunks') :
    Managed l' chunks' ∧ ∀ b ∈ l'.live, l'.blockSize b.1 = l.blockSize b.1 := by
  have hBlocks : ∀ b ∈ l'.live, ∃ c ∈ chunks, c ∈ chunks' ∧ c.used = true ∧
      b.1 = c.address + headerSize ∧ b.2 ≤ c.size := by
    intro b hb
    obtain ⟨c, hc, hUsed, hAddress, hSize⟩ := h.blocks b (hLive.mem hb)
    exact ⟨c, hc, hKeep b hb c hc hUsed hAddress, hUsed, hAddress, hSize⟩
  have hManaged : Managed l' chunks' := by
    refine ⟨hArena, fun b hb => ?_, h.nodup.sublist (hLive.map _)⟩
    obtain ⟨c, -, hc, hRest⟩ := hBlocks b hb
    exact ⟨c, hc, hRest⟩
  refine ⟨hManaged, fun b hb => ?_⟩
  obtain ⟨c, hc, hc', -, hAddress, -⟩ := hBlocks b hb
  rw [hAddress, hManaged.blockSize_eq hc', h.blockSize_eq hc]

end

theorem mem_coalesce {c : Chunk} {list : List Chunk} (hc : c ∈ list) (hUsed : c.used = true) :
    c ∈ coalesce bothFree joined list := by
  cases list with
  | nil => simp at hc
  | cons d rest =>
    have hFilter : (sweep bothFree joined d rest).filter Chunk.used =
        (d :: rest).filter Chunk.used := by
      apply filter_sweep
      intro a b hj
      simp only [bothFree, Bool.and_eq_true, Bool.not_eq_true'] at hj
      exact ⟨hj.1, hj.2, hj.1⟩
    have hMem : c ∈ (d :: rest).filter Chunk.used := mem_filter.mpr ⟨hc, hUsed⟩
    rw [← hFilter] at hMem
    exact (mem_filter.mp hMem).1

/-- The arena stays in order when a chunk is handed out. -/
theorem allocate (h : Managed l chunks) {size address : Nat} {a : ChunkAllocator}
    (hSize : size + headerSize < wordSize)
    (hAllocate : ChunkAllocator.allocate l.allocator size = some (address, a)) :
    ∃ chunks', Managed { l with
        allocator := a
        live := if address = 0 then l.live else (address, size) :: l.live } chunks' ∧
      (∀ b ∈ l.live, ({ l with
        allocator := a
        live := if address = 0 then l.live else (address, size) :: l.live } : Ledger).blockSize b.1 =
          l.blockSize b.1) ∧
      (address ≠ 0 →
        ({ l with allocator := a } : Ledger).blockSize address = max size minimumAllocationSize) := by
  rcases h.arena.allocate hSize with
    ⟨hNone, -⟩ | ⟨before, c, after, a', hSplit, hFits, hSome, hArena⟩
  · obtain ⟨rfl, rfl⟩ := Prod.mk.inj (Option.some.inj (hNone.symm.trans hAllocate))
    exact ⟨chunks, by simpa using h, fun _ _ => rfl, fun hNe => absurd rfl hNe⟩
  · obtain ⟨rfl, rfl⟩ := Prod.mk.inj (Option.some.inj (hSome.symm.trans hAllocate))
    have hc : c ∈ chunks := by simp [hSplit]
    have hFree := (fits_iff.mp hFits).1
    have hUsedNe : ∀ d ∈ chunks, d.used = true → d.address ≠ c.address := by
      intro d hd hUsed hAddress
      have hEq := h.chunk_eq hd hc hAddress
      rw [hEq, hFree] at hUsed
      cases hUsed
    obtain ⟨hManaged, hSizes⟩ : Managed { l with allocator := a' } _ ∧
        ∀ b ∈ l.live, ({ l with allocator := a' } : Ledger).blockSize b.1 = l.blockSize b.1 := by
      apply h.transfer { l with allocator := a' } hArena (List.Sublist.refl _)
      intro b _ d hd hUsed _
      have hNe : d ≠ c := fun hEq => hUsedNe d hd hUsed (congrArg Chunk.address hEq)
      rw [hSplit, mem_append, mem_cons] at hd
      rw [mem_append, mem_cons, mem_cons]
      rcases hd with hd | hd | hd
      · exact .inl hd
      · exact absurd hd hNe
      · exact .inr (.inr (.inr hd))
    refine ⟨_, ⟨hArena, ?_, ?_⟩, hSizes, fun _ => ?_⟩
    · intro b hb
      rcases mem_cons.mp hb with rfl | hb
      · exact ⟨⟨c.address, true, max size minimumAllocationSize⟩, by simp, rfl, rfl, le_max_left _ _⟩
      · exact hManaged.blocks b hb
    · refine nodup_cons.mpr ⟨?_, h.nodup⟩
      intro hMem
      obtain ⟨b, hb, hAddress⟩ := mem_map.mp hMem
      obtain ⟨d, hd, hUsed, hAddress', -⟩ := h.blocks b hb
      exact hUsedNe d hd hUsed (by omega)
    · exact hManaged.blockSize_eq
        (show ⟨c.address, true, max size minimumAllocationSize⟩ ∈ _ by simp)

/-- The arena stays in order when a chunk is given back and merged. -/
theorem free (h : Managed l chunks) {block : Nat × Nat} {size : Nat} {a : ChunkAllocator}
    (hBlock : block ∈ l.live)
    (hFree : ChunkAllocator.free l.allocator block.1 = some (size, a)) :
    ∃ chunks', Managed { l with allocator := a, live := l.live.erase block } chunks' ∧
      (∀ b ∈ l.live.erase block,
        ({ l with allocator := a, live := l.live.erase block } : Ledger).blockSize b.1 =
          l.blockSize b.1) ∧
      size = l.blockSize block.1 := by
  obtain ⟨c, hc, hUsed, hAddress, -⟩ := h.blocks block hBlock
  obtain ⟨before, after, hSplit⟩ := append_of_mem hc
  obtain ⟨a', hSome, hArena⟩ := h.arena.free hSplit
  rw [← hAddress] at hSome
  obtain ⟨rfl, rfl⟩ := Prod.mk.inj (Option.some.inj (hSome.symm.trans hFree))
  have hStored : c.size = l.blockSize block.1 := by rw [hAddress, h.blockSize_eq hc]
  suffices hKeep : ∀ b ∈ l.live.erase block, ∀ d ∈ chunks, d.used = true →
      b.1 = d.address + headerSize →
      d ∈ coalesce bothFree joined (before ++ { c with used := false } :: after) by
    obtain ⟨hManaged, hSizes⟩ :=
      h.transfer { l with allocator := a', live := l.live.erase block } hArena erase_sublist hKeep
    exact ⟨_, hManaged, hSizes, hStored⟩
  intro b hb d hd hdUsed hdAddress
  have hNe : d ≠ c := by
    intro hEq
    have hSame : b.1 = block.1 := by rw [hdAddress, hAddress, hEq]
    have hErased := List.Nodup.mem_erase_iff (List.Nodup.of_map _ h.nodup) |>.mp hb
    exact hErased.1 (inj_on_of_nodup_map h.nodup hErased.2 hBlock hSame)
  apply mem_coalesce _ hdUsed
  rw [hSplit, mem_append, mem_cons] at hd
  rw [mem_append, mem_cons]
  rcases hd with hd | hd | hd
  · exact .inl hd
  · exact absurd hd hNe
  · exact .inr (.inr hd)

theorem expand (h : Managed l chunks) {size : Nat} {a : ChunkAllocator} (hSize : headerSize ≤ size)
    (hRoom : l.stop + size < wordSize)
    (hExpand : ChunkAllocator.expand l.allocator size = some a) :
    Managed { l with allocator := a, stop := l.stop + size }
        (coalesce bothFree joined (chunks ++ [⟨l.stop, false, size - headerSize⟩])) ∧
      ∀ b ∈ l.live, ({ l with allocator := a, stop := l.stop + size } : Ledger).blockSize b.1 =
        l.blockSize b.1 := by
  obtain ⟨a', hSome, hArena⟩ := h.arena.expand hSize hRoom
  obtain rfl := Option.some.inj (hSome.symm.trans hExpand)
  apply h.transfer { l with allocator := a', stop := l.stop + size } hArena (List.Sublist.refl _)
  intro b _ d hd hUsed _
  exact mem_coalesce (by simp [hd]) hUsed

end Managed

/-- Before the first `initialize` nothing is in use; afterwards there is an
arena. -/
def Invariant (l : Ledger) : Prop :=
  l.allocator.first = 0 ∧ l.live = [] ∨ ∃ chunks, Managed l chunks

/-- A step keeps the invariant and the size of every block that stays in use. -/
theorem Step.keeps {l l' : Ledger} {op : Op} (h : Invariant l) (hStep : Step l op l') :
    Invariant l' ∧ ∀ b ∈ l.live, b ∈ l'.live → l'.blockSize b.1 = l.blockSize b.1 := by
  cases hStep with
  | initializeArea hStart hRoom hStop =>
    refine ⟨.inr ⟨_, Arena.initializeArea _ hStart hRoom hStop, ?_, ?_⟩, ?_⟩
    · simp
    · simp
    · simp
  | allocate hSize hAllocate =>
    rcases h with ⟨hFirst, hLive⟩ | ⟨chunks, hManaged⟩
    · rw [ChunkAllocator.allocate, if_pos hFirst, Option.some.injEq] at hAllocate
      obtain ⟨rfl, rfl⟩ := hAllocate
      exact ⟨.inl ⟨hFirst, by simpa using hLive⟩, fun _ _ _ => rfl⟩
    · obtain ⟨chunks', hManaged', hSizes, -⟩ := hManaged.allocate hSize hAllocate
      exact ⟨.inr ⟨chunks', hManaged'⟩, fun b hb _ => hSizes b hb⟩
  | free hBlock hFree =>
    rcases h with ⟨-, hLive⟩ | ⟨chunks, hManaged⟩
    · simp [hLive] at hBlock
    · obtain ⟨chunks', hManaged', hSizes, -⟩ := hManaged.free hBlock hFree
      exact ⟨.inr ⟨chunks', hManaged'⟩, fun b _ hb => hSizes b hb⟩
  | expand hSize hRoom hExpand =>
    rcases h with ⟨hFirst, -⟩ | ⟨chunks, hManaged⟩
    · simp [ChunkAllocator.expand, hFirst] at hExpand
    · obtain ⟨hManaged', hSizes⟩ := hManaged.expand hSize hRoom hExpand
      exact ⟨.inr ⟨_, hManaged'⟩, fun b hb _ => hSizes b hb⟩

theorem run_invariant {ops : List Op} {l : Ledger} (run : Run Step Ledger.initial ops l) :
    Invariant l :=
  run.invariant (.inl ⟨rfl, rfl⟩) fun _ _ _ h hStep => (Step.keeps h hStep).1

theorem next_eq {memory : Nat → ChunkHeader} {head start stop : Nat} {chunks : List Chunk}
    (h : Laid memory head start chunks 0 stop) :
    ∀ c ∈ chunks, (memory c.address).next = c.stop ∨
      (memory c.address).next = 0 ∧ c.stop = stop := by
  induction chunks generalizing head start with
  | nil => simp
  | cons c chunks ih =>
    obtain ⟨-, -, -, -, -, hRest⟩ := h
    refine forall_mem_cons.mpr ⟨?_, ih hRest⟩
    cases chunks with
    | nil => exact .inr hRest
    | cons d chunks => exact .inl (hRest.head_pos (by simp)).1

/-- In every history the linked chunks fill the arena without gaps and no two neighbours are free;
the blocks in use are as large as requested, in the arena and apart; no call changes the size of a
block that stays in use, and every call comes back. -/
theorem chunks_fill_arena {ops : List Op} {l : Ledger} (run : Run Step Ledger.initial ops l) :
    (l.allocator.first ≠ 0 → ∃ chunks : List Nat, chunks.head? = some l.start ∧
      Segment (fun c => (l.allocator.memory c).next) l.allocator.first chunks 0 ∧
      (∀ c ∈ chunks,
        (l.allocator.memory c).next = c + headerSize + (l.allocator.memory c).size ∨
        (l.allocator.memory c).next = 0 ∧
          c + headerSize + (l.allocator.memory c).size = l.stop) ∧
      chunks.IsChain fun c d =>
        (l.allocator.memory c).used = true ∨ (l.allocator.memory d).used = true) ∧
    (∀ b ∈ l.live, l.start + headerSize ≤ b.1 ∧ b.1 + l.blockSize b.1 ≤ l.stop ∧
      b.2 ≤ l.blockSize b.1) ∧
    (l.live.Pairwise fun b d => b.1 + l.blockSize b.1 ≤ d.1 ∨ d.1 + l.blockSize d.1 ≤ b.1) ∧
    (∀ op l', Step l op l' →
      ∀ b ∈ l.live, b ∈ l'.live → l'.blockSize b.1 = l.blockSize b.1) ∧
    (∀ size, size + headerSize < wordSize → (allocate l.allocator size).isSome) ∧
    (∀ b ∈ l.live, (free l.allocator b.1).isSome) ∧
    (∀ size, l.allocator.first ≠ 0 → headerSize ≤ size → l.stop + size < wordSize →
      (expand l.allocator size).isSome) := by
  have h := run_invariant run
  have hKeeps : ∀ op l', Step l op l' →
      ∀ b ∈ l.live, b ∈ l'.live → l'.blockSize b.1 = l.blockSize b.1 :=
    fun op l' hStep => (Step.keeps h hStep).2
  rcases h with ⟨hFirst, hLive⟩ | ⟨chunks, h⟩
  · simp [hFirst, hLive, allocate]
  · refine ⟨fun _ => ⟨chunks.map Chunk.address, ?_, h.arena.laid.links, ?_, ?_⟩, ?_, ?_, hKeeps,
      ?_, ?_, ?_⟩
    · have hTiles := h.arena.laid.tiles
      cases chunks with
      | nil => exact absurd rfl h.arena.nonempty
      | cons c chunks => simp [hTiles.1]
    · intro address hAddress
      obtain ⟨c, hc, rfl⟩ := mem_map.mp hAddress
      rw [(h.arena.laid.headers c hc).2]
      exact next_eq h.arena.laid c hc
    · rw [isChain_map]
      apply h.arena.swept.imp_of_mem_imp
      intro c d hc hd hPair
      rw [(h.arena.laid.headers c hc).1, (h.arena.laid.headers d hd).1]
      cases hUsed : c.used with
      | true => exact .inl rfl
      | false => exact .inr (by simpa [bothFree, hUsed] using hPair)
    · exact fun b hb => h.inside hb
    · exact h.pairwise_apart
    · intro size hSize
      rcases h.arena.allocate hSize with ⟨hNone, -⟩ | ⟨_, _, _, _, _, _, hSome, _⟩
      · simp [hNone]
      · simp [hSome]
    · intro b hb
      obtain ⟨c, hc, -, hAddress, -⟩ := h.blocks b hb
      obtain ⟨before, after, hSplit⟩ := append_of_mem hc
      obtain ⟨a', hSome, -⟩ := h.arena.free hSplit
      rw [hAddress, hSome]
      rfl
    · intro size _ hSize hRoom
      obtain ⟨a', hSome, -⟩ := h.arena.expand hSize hRoom
      rw [hSome]
      rfl

/-- Two blocks of 20 and 4 bytes in an arena of 256 bytes, the first of which
is freed again. -/
theorem chunks_fill_arena_two_blocks : ∃ l, Run Step Ledger.initial
        [.initializeArea 0x1000 0x1100, .allocate 20, .allocate 4, .free 0x100C] l ∧
      l.live = [(0x102C, 4)] ∧ l.blockSize 0x102C = 8 ∧ 0x102C + l.blockSize 0x102C ≤ l.stop := by
  have hArea := Run.single
    (@Step.initializeArea Ledger.initial 0x1000 0x1100 (by decide) (by decide) (by decide))
  have hFirst := Run.snoc hArea (@Step.allocate _ 20 0x100C _ (by decide) rfl)
  have hSecond := Run.snoc hFirst (@Step.allocate _ 4 0x102C _ (by decide) rfl)
  have run := Run.snoc hSecond (@Step.free _ (0x100C, 20) 20 _ (by decide) rfl)
  have hLive := (chunks_fill_arena run).2.1 (0x102C, 4) (by decide)
  exact ⟨_, run, rfl, rfl, hLive.2.1⟩

end Kernel.ChunkAllocator
