import MeetiX.Base.Coalesce
import MeetiX.Base.Linked
import MeetiX.Base.Tiling
import MeetiX.Kernel.Memory.ChunkAllocator

/-! An arena is an allocator whose linked headers show a list of chunks that lie one behind the
other and fill the managed memory. Each operation is one on that list, which fills the arena
again. -/
namespace Kernel.ChunkAllocator

open Base Base.Linked Base.Coalesce Function List

structure Chunk where
  address : Nat
  used : Bool
  size : Nat
  deriving DecidableEq, Repr

def Chunk.stop (c : Chunk) : Nat := c.address + headerSize + c.size

theorem Chunk.address_lt_stop (c : Chunk) : c.address + 12 ≤ c.stop := by
  simp [Chunk.stop, headerSize]

theorem Chunk.address_le_stop (c : Chunk) : c.address ≤ c.stop :=
  Nat.le_of_add_right_le c.address_lt_stop

/-- Two chunks that `merge` makes into one. -/
def bothFree (a b : Chunk) : Bool := !a.used && !b.used

def joined (a b : Chunk) : Chunk := { a with size := a.size + headerSize + b.size }

/-- Following the headers from `head` shows the chunks, which lie one behind the other
from `start` to `stop`. The last one leads to `exit`. -/
def Laid (memory : Nat → ChunkHeader) : Nat → Nat → List Chunk → Nat → Nat → Prop
  | head, start, [], exit, stop => head = exit ∧ start = stop
  | head, start, c :: chunks, exit, stop =>
    head = c.address ∧ c.address = start ∧ 0 < c.address ∧
      (memory c.address).used = c.used ∧ (memory c.address).size = c.size ∧
      Laid memory (memory c.address).next c.stop chunks exit stop

section Loops

variable {memory memory' : Nat → ChunkHeader} {head start exit stop fuel : Nat}
variable {c : Chunk} {chunks : List Chunk} {size : Nat}

@[simp] theorem laid_nil : Laid memory head start [] exit stop ↔ head = exit ∧ start = stop :=
  Iff.rfl

@[simp] theorem laid_cons : Laid memory head start (c :: chunks) exit stop ↔
      head = c.address ∧ c.address = start ∧ 0 < c.address ∧
        (memory c.address).used = c.used ∧ (memory c.address).size = c.size ∧
        Laid memory (memory c.address).next c.stop chunks exit stop :=
  Iff.rfl

theorem laid_append {left right : List Chunk} :
    Laid memory head start (left ++ right) exit stop ↔ ∃ link middle,
      Laid memory head start left link middle ∧ Laid memory link middle right exit stop := by
  induction left generalizing head start with
  | nil => simp [and_assoc]
  | cons c left ih => simp [ih, and_assoc]

namespace Laid

variable (h : Laid memory head start chunks exit stop)

include h

theorem tiles : Tiles Chunk.address Chunk.stop start chunks stop := by
  induction chunks generalizing head start with
  | nil => exact h.2
  | cons c chunks ih =>
    obtain ⟨-, hStart, -, -, -, hRest⟩ := h
    exact ⟨hStart, ih hRest⟩

theorem links : Segment (fun a => (memory a).next) head (chunks.map Chunk.address) exit := by
  induction chunks generalizing head start with
  | nil => exact h.1
  | cons c chunks ih =>
    obtain ⟨hHead, -, hPos, -, -, hRest⟩ := h
    exact ⟨hHead, Nat.ne_of_gt hPos, ih hRest⟩

theorem headers :
    ∀ c ∈ chunks, (memory c.address).used = c.used ∧ (memory c.address).size = c.size := by
  induction chunks generalizing head start with
  | nil => simp
  | cons c chunks ih =>
    obtain ⟨-, -, -, hUsed, hSize, hRest⟩ := h
    exact forall_mem_cons.mpr ⟨⟨hUsed, hSize⟩, ih hRest⟩

theorem head_pos (hNonempty : chunks ≠ []) : head = start ∧ 0 < head := by
  cases chunks with
  | nil => exact absurd rfl hNonempty
  | cons c chunks =>
    obtain ⟨rfl, rfl, hPos, -⟩ := h
    exact ⟨rfl, hPos⟩

theorem le : start ≤ stop :=
  (h.tiles.bounds fun d _ => d.address_le_stop).1

/-- Headers outside the chunks may change. -/
theorem congr (hSame : ∀ a, start ≤ a → a < stop → memory' a = memory a) :
    Laid memory' head start chunks exit stop := by
  induction chunks generalizing head start with
  | nil => exact h
  | cons c chunks ih =>
    obtain ⟨hHead, rfl, hPos, hUsed, hSize, hRest⟩ := h
    have hHeader := c.address_lt_stop
    have hLe := hRest.le
    rw [laid_cons, hSame c.address (Nat.le_refl _) (by omega)]
    exact ⟨hHead, rfl, hPos, hUsed, hSize, ih hRest fun a hLow => hSame a (by omega)⟩

theorem length_lt (hStop : stop < wordSize) : chunks.length < chunkLimit := by
  have hSpace : start + 12 * chunks.length ≤ stop := by
    induction chunks generalizing head start with
    | nil => exact Nat.le_of_eq h.2
    | cons c chunks ih =>
      obtain ⟨-, rfl, -, -, -, hRest⟩ := h
      have hLength := ih hRest
      have hHeader := c.address_lt_stop
      rw [length_cons]
      omega
  unfold chunkLimit
  omega

end Laid

/-- The loop of `merge` sweeps the list of chunks and writes no header before it. -/
theorem mergeFrom_spec (h : Laid memory head start (c :: chunks) 0 stop)
    (hFuel : chunks.length < fuel) (hStop : stop < wordSize) :
    ∃ memory', mergeFrom fuel c.address memory = some memory' ∧
      Laid memory' head start (sweep bothFree joined c chunks) 0 stop ∧
      ∀ a < start, memory' a = memory a := by
  induction chunks generalizing c head memory fuel start with
  | nil =>
    obtain ⟨-, -, -, -, -, hEnd, -⟩ := id h
    cases fuel with
    | zero => simp at hFuel
    | succ fuel => exact ⟨memory, by simp [mergeFrom, hEnd], h, fun _ _ => rfl⟩
  | cons n chunks ih =>
    obtain ⟨hHead, rfl, hPos, hUsed, hSize, hRest⟩ := h
    obtain ⟨hNext, hMeet, hNextPos, hNextUsed, hNextSize, hTail⟩ := id hRest
    have hHeader := c.address_lt_stop
    have hNextStop := n.address_lt_stop
    have hLe := hTail.le
    have hNe : n.address ≠ 0 := Nat.ne_of_gt hNextPos
    have hTest : (!(memory c.address).used && !(memory n.address).used) = bothFree c n := by
      rw [hUsed, hNextUsed, bothFree]
    cases fuel with
    | zero => simp at hFuel
    | succ fuel =>
      have hFuel' : chunks.length < fuel := Nat.lt_of_succ_lt_succ hFuel
      rw [mergeFrom]
      simp only [hNext, hNe, hTest, ne_eq, not_false_eq_true, if_true]
      cases hj : bothFree c n with
      | true =>
        have hStops : (joined c n).stop = n.stop := by
          simp only [Chunk.stop, joined] at hMeet ⊢
          omega
        have hWrap : wrap32 (c.size + headerSize + n.size) = c.size + headerSize + n.size := by
          apply wrap32_of_lt
          simp only [Chunk.stop] at hMeet hLe
          omega
        have hJoined : Laid (update memory c.address
            { memory c.address with
              size := wrap32 ((memory c.address).size + headerSize + (memory n.address).size)
              next := (memory n.address).next }) head c.address (joined c n :: chunks) 0 stop := by
          rw [laid_cons, hStops, joined, update_self, hSize, hNextSize, hWrap]
          refine ⟨hHead, rfl, hPos, hUsed, rfl, hTail.congr fun a hLow _ => ?_⟩
          exact update_of_ne (by omega) _ _
        obtain ⟨memory', hMerge, hLaid, hFrame⟩ := ih hJoined hFuel'
        rw [sweep_cons_of_joins hj]
        refine ⟨memory', hMerge, hLaid, fun a ha => ?_⟩
        rw [hFrame a ha, update_of_ne (Nat.ne_of_lt ha)]
      | false =>
        obtain ⟨memory', hMerge, hLaid, hFrame⟩ := ih hRest hFuel'
        rw [sweep_cons_of_not_joins hj]
        refine ⟨memory', hMerge, ?_, fun a ha => hFrame a (by omega)⟩
        rw [laid_cons, hFrame c.address (by omega)]
        exact ⟨hHead, rfl, hPos, hUsed, hSize, hLaid⟩

theorem findLast_spec {before : List Chunk} (h : Laid memory head start (before ++ [c]) 0 stop)
    (hFuel : before.length < fuel) : findLast memory fuel head = some c.address := by
  induction before generalizing head start fuel with
  | nil =>
    obtain ⟨rfl, -, -, -, -, hEnd, -⟩ := h
    cases fuel with
    | zero => simp at hFuel
    | succ fuel => simp [findLast, hEnd]
  | cons d before ih =>
    obtain ⟨rfl, -, -, -, -, hRest⟩ := h
    cases fuel with
    | zero => simp at hFuel
    | succ fuel =>
      have hNext : (memory d.address).next ≠ 0 := Nat.ne_of_gt (hRest.head_pos (by simp)).2
      rw [findLast, if_pos hNext, ih hRest (Nat.lt_of_succ_lt_succ hFuel)]

/-- A chunk that `allocate` cuts a block of this size from. -/
def fits (size : Nat) (c : Chunk) : Bool := !c.used && decide (size + headerSize ≤ c.size)

theorem fits_iff : fits size c = true ↔ c.used = false ∧ size + headerSize ≤ c.size := by
  simp [fits]

/-- The test of the loop, in which the sum is computed in 32 bits. -/
def fitsWrapped (size : Nat) (c : Chunk) : Bool :=
  !c.used && decide (wrap32 (size + headerSize) ≤ c.size)

theorem findFit_eq {size : Nat} (h : Laid memory head start chunks 0 stop)
    (hNonempty : chunks ≠ []) (hFuel : chunks.length ≤ fuel) :
    findFit memory size fuel head =
      some (((chunks.find? (fitsWrapped size)).map Chunk.address).getD 0) := by
  induction chunks generalizing head start fuel with
  | nil => exact absurd rfl hNonempty
  | cons c chunks ih =>
    obtain ⟨rfl, -, -, hUsed, hSize, hRest⟩ := h
    cases fuel with
    | zero => simp at hFuel
    | succ fuel =>
      have hTest : (!(memory c.address).used &&
          decide ((memory c.address).size ≥ wrap32 (size + headerSize))) =
          fitsWrapped size c := by
        simp [fitsWrapped, hUsed, hSize]
      rw [findFit, hTest, find?_cons]
      cases hFits : fitsWrapped size c with
      | true => simp
      | false =>
        cases chunks with
        | nil => simp [hRest.1]
        | cons d chunks =>
          have hNext : (memory c.address).next ≠ 0 := Nat.ne_of_gt (hRest.head_pos (by simp)).2
          have hLoop := ih hRest (by simp) (Nat.le_of_succ_le_succ hFuel)
          simp [hNext, hLoop]

theorem findFit_spec (h : Laid memory head start chunks 0 stop)
    (hNonempty : chunks ≠ []) (hFuel : chunks.length ≤ fuel) (hSize : size + headerSize < wordSize) :
    findFit memory size fuel head = some (((chunks.find? (fits size)).map Chunk.address).getD 0) := by
  have hFits : fitsWrapped size = fits size := by
    funext c
    rw [fitsWrapped, fits, wrap32_of_lt hSize]
  rw [← hFits]
  exact findFit_eq h hNonempty hFuel

def chunkList (memory : Nat → ChunkHeader) : Nat → Nat → List Chunk
  | 0, _ => []
  | fuel + 1, address =>
    if address = 0 then []
    else ⟨address, (memory address).used, (memory address).size⟩ ::
      chunkList memory fuel (memory address).next

theorem Laid.chunkList_eq (h : Laid memory head start chunks 0 stop)
    (hFuel : chunks.length < fuel) : chunkList memory fuel head = chunks := by
  induction chunks generalizing head start fuel with
  | nil =>
    cases fuel with
    | zero => simp at hFuel
    | succ fuel => simp [chunkList, h.1]
  | cons c chunks ih =>
    obtain ⟨rfl, -, hPos, hUsed, hSize, hRest⟩ := h
    cases fuel with
    | zero => simp at hFuel
    | succ fuel =>
      rw [chunkList, if_neg (Nat.ne_of_gt hPos), ih hRest (Nat.lt_of_succ_lt_succ hFuel), hUsed,
        hSize]

end Loops

/-- An allocator that manages the memory from `start` to `stop`. -/
structure Arena (a : ChunkAllocator) (start stop : Nat) (chunks : List Chunk) : Prop where
  laid : Laid a.memory a.first start chunks 0 stop
  nonempty : chunks ≠ []
  stop_lt : stop < wordSize
  swept : chunks.IsChain fun a b => bothFree a b = false

def chunks (a : ChunkAllocator) : List Chunk := chunkList a.memory chunkLimit a.first

namespace Arena

variable {a : ChunkAllocator} {start stop : Nat} {chunks : List Chunk} {c : Chunk}

section

variable (h : Arena a start stop chunks)

include h

theorem chunks_eq : a.chunks = chunks :=
  h.laid.chunkList_eq (h.laid.length_lt h.stop_lt)

theorem first_ne_zero : a.first ≠ 0 :=
  Nat.ne_of_gt (h.laid.head_pos h.nonempty).2

theorem start_pos : 0 < start := by
  obtain ⟨hFirst, hPos⟩ := h.laid.head_pos h.nonempty
  rwa [← hFirst]

theorem bounds (hc : c ∈ chunks) : start ≤ c.address ∧ c.stop ≤ stop :=
  (h.laid.tiles.bounds fun d _ => d.address_le_stop).2 c hc

theorem apart {d : Chunk} (hc : c ∈ chunks) (hd : d ∈ chunks) :
    c = d ∨ c.stop ≤ d.address ∨ d.stop ≤ c.address :=
  h.laid.tiles.apart (fun e _ => e.address_le_stop) hc hd

end

theorem initializeArea (a : ChunkAllocator) {start stop : Nat} (hStart : 0 < start)
    (hRoom : start + headerSize ≤ stop) (hStop : stop < wordSize) :
    Arena (initializeArea a start stop) start stop [⟨start, false, stop - start - headerSize⟩] := by
  have hSize : sub32 (sub32 stop start) headerSize = stop - start - headerSize := by
    rw [sub32_of_le (by omega) hStop, sub32_of_le (by omega) (by omega)]
  refine ⟨?_, by simp, hStop, List.IsChain.singleton _⟩
  simp only [ChunkAllocator.initializeArea, laid_cons, laid_nil, update_self, hSize, Chunk.stop]
  refine ⟨trivial, trivial, hStart, trivial, trivial, trivial, ?_⟩
  omega

theorem merge {memory : Nat → ChunkHeader} (hLaid : Laid memory a.first start chunks 0 stop)
    (hNonempty : chunks ≠ []) (hStop : stop < wordSize) :
    ∃ a', ChunkAllocator.merge { a with memory := memory } = some a' ∧
      Arena a' start stop (coalesce bothFree joined chunks) := by
  have hNe : a.first ≠ 0 := Nat.ne_of_gt (hLaid.head_pos hNonempty).2
  have hLength := hLaid.length_lt hStop
  cases chunks with
  | nil => exact absurd rfl hNonempty
  | cons c rest =>
    obtain ⟨memory', hMerge, hMerged, -⟩ :=
      mergeFrom_spec hLaid (Nat.lt_of_succ_lt hLength) hStop
    rw [← hLaid.1] at hMerge
    refine ⟨{ a with memory := memory' }, ?_, hMerged, sweep_ne_nil _ _, hStop, ?_⟩
    · simp [ChunkAllocator.merge, hNe, hMerge]
    · refine (@isChain_sweep _ _ _ (fun _ => True) (fun _ _ => True) (fun _ _ _ _ _ => trivial) ?_
        (fun _ _ _ _ _ _ => id) c rest (fun _ _ => trivial) ?_).2
      · exact fun b d e hj => ⟨id, by simp [bothFree, joined]⟩
      · exact isChain_iff_getElem.mpr fun _ _ => trivial

/-- A free chunk with enough room is cut into a used block and a free rest. -/
theorem split (h : Arena a start stop chunks) {before after : List Chunk} {n : Nat}
    (hSplit : chunks = before ++ c :: after) (hFree : c.used = false)
    (hRoom : n + headerSize ≤ c.size) :
    Arena { a with memory := ChunkAllocator.split a.memory c.address n } start stop
      (before ++ ⟨c.address, true, n⟩ ::
        ⟨c.address + headerSize + n, false, c.size - n - headerSize⟩ :: after) := by
  obtain ⟨_, _, hFront, hHead, rfl, hPos, -, hChunkSize, hBack⟩ := laid_append.mp (hSplit ▸ h.laid)
  have hHeader : headerSize = 12 := rfl
  have hHigh : c.address + headerSize + c.size ≤ stop := hBack.le
  have hStop := h.stop_lt
  have hSplinter : wrap32 (c.address + headerSize + n) = c.address + headerSize + n :=
    wrap32_of_lt (by omega)
  have hRest : sub32 (sub32 c.size n) headerSize = c.size - n - headerSize := by
    have hTaken : sub32 c.size n = c.size - n := sub32_of_le (by omega) (by omega)
    rw [hTaken, sub32_of_le (by omega) (by omega)]
  have hSelf : ChunkAllocator.split a.memory c.address n c.address =
      { next := c.address + headerSize + n, used := true, size := n } := by
    simp [ChunkAllocator.split, hSplinter]
  have hNew : ChunkAllocator.split a.memory c.address n (c.address + headerSize + n) =
      { next := (a.memory c.address).next, used := false, size := c.size - n - headerSize } := by
    have hNe : c.address + headerSize + n ≠ c.address := by omega
    simp [ChunkAllocator.split, hSplinter, hNe, hChunkSize, hRest]
  have hKeep : ∀ d, d ≠ c.address → d ≠ c.address + headerSize + n →
      ChunkAllocator.split a.memory c.address n d = a.memory d := by
    intro d hd hd'
    simp [ChunkAllocator.split, hSplinter, hd, hd']
  have hEnd : c.address + headerSize + n + headerSize + (c.size - n - headerSize) = c.stop := by
    simp only [Chunk.stop]
    omega
  refine ⟨laid_append.mpr ⟨_, _, hFront.congr fun d _ hd => hKeep d (by omega) (by omega), ?_⟩,
    by simp, hStop, ?_⟩
  · simp only [laid_cons, hSelf, hNew, Chunk.stop]
    refine ⟨hHead, trivial, hPos, trivial, trivial, trivial, trivial, by omega, trivial, trivial, ?_⟩
    rw [hEnd]
    refine hBack.congr fun d hd _ => ?_
    simp only [Chunk.stop] at hd
    exact hKeep d (by omega) (by omega)
  · have hSwept := h.swept
    rw [hSplit, isChain_append] at hSwept
    obtain ⟨hFirst, hSecond, hMeet⟩ := hSwept
    refine isChain_append.mpr ⟨hFirst, ?_, ?_⟩
    · refine isChain_cons_cons.mpr ⟨rfl, ?_⟩
      cases after with
      | nil => exact List.IsChain.singleton _
      | cons d after =>
        obtain ⟨hPair, hTail⟩ := isChain_cons_cons.mp hSecond
        refine isChain_cons_cons.mpr ⟨?_, hTail⟩
        simpa [bothFree, hFree] using hPair
    · intro x _ y hy
      simp only [head?_cons, Option.mem_def, Option.some.injEq] at hy
      subst hy
      simp [bothFree]

/-- `allocate` finds no chunk, or cuts the first one that fits. -/
theorem allocate (h : Arena a start stop chunks) {size : Nat} (hSize : size + headerSize < wordSize) :
    (ChunkAllocator.allocate a size = some (0, a) ∧
        ∀ c ∈ chunks, fits (max size minimumAllocationSize) c = false) ∨
      ∃ before c after a', chunks = before ++ c :: after ∧
        fits (max size minimumAllocationSize) c = true ∧
        ChunkAllocator.allocate a size = some (c.address + headerSize, a') ∧
        Arena a' start stop (before ++ ⟨c.address, true, max size minimumAllocationSize⟩ ::
          ⟨c.address + headerSize + max size minimumAllocationSize, false,
            c.size - max size minimumAllocationSize - headerSize⟩ :: after) := by
  have hMinimum : (if size < minimumAllocationSize then minimumAllocationSize else size) =
      max size minimumAllocationSize := by
    split <;> omega
  have hnSize : max size minimumAllocationSize + headerSize < wordSize := by
    have : minimumAllocationSize + headerSize < wordSize := by decide
    omega
  have hFind := findFit_spec h.laid h.nonempty (Nat.le_of_lt (h.laid.length_lt h.stop_lt)) hnSize
  simp only [ChunkAllocator.allocate, h.first_ne_zero, hMinimum, hFind]
  generalize max size minimumAllocationSize = n at *
  cases hFound : chunks.find? (fits n) with
  | none =>
    have hNone : ∀ c ∈ chunks, fits n c = false := by simpa using hFound
    exact .inl ⟨by simp, hNone⟩
  | some c =>
    obtain ⟨hFits, before, after, hSplit, -⟩ := find?_eq_some_iff_append.mp hFound
    obtain ⟨hFree, hRoom⟩ := fits_iff.mp hFits
    obtain ⟨hLow, hHigh⟩ := h.bounds (show c ∈ chunks by simp [hSplit])
    have hStart := h.start_pos
    have hStop := h.stop_lt
    have hNe : c.address ≠ 0 := by omega
    have hPayload : wrap32 (c.address + headerSize) = c.address + headerSize := by
      apply wrap32_of_lt
      simp only [Chunk.stop] at hHigh
      omega
    right
    refine ⟨before, c, after, _, hSplit, hFits, ?_, h.split hSplit hFree hRoom⟩
    simp [hNe, hPayload]

/-- `free` marks the chunk of the block as free and merges. -/
theorem free (h : Arena a start stop chunks) {before after : List Chunk} {c : Chunk}
    (hSplit : chunks = before ++ c :: after) :
    ∃ a', ChunkAllocator.free a (c.address + headerSize) = some (c.size, a') ∧
      Arena a' start stop
        (coalesce bothFree joined (before ++ { c with used := false } :: after)) := by
  obtain ⟨_, _, hFront, hHead, rfl, hPos, -, hSize, hBack⟩ := laid_append.mp (hSplit ▸ h.laid)
  have hBehind := c.address_lt_stop
  have hBlock : sub32 (c.address + headerSize) headerSize = c.address := by
    have hHigh : c.address + headerSize + c.size ≤ stop := hBack.le
    have hStop := h.stop_lt
    rw [sub32_of_le (by omega) (by omega)]
    omega
  have hLaid : Laid (update a.memory c.address { a.memory c.address with used := false }) a.first
      start (before ++ { c with used := false } :: after) 0 stop := by
    refine laid_append.mpr ⟨_, _, hFront.congr fun d _ hd => update_of_ne (by omega) _ _, ?_⟩
    rw [laid_cons, update_self]
    exact ⟨hHead, rfl, hPos, rfl, hSize, hBack.congr fun d hd _ => update_of_ne (by omega) _ _⟩
  obtain ⟨a', hMerge, hArena⟩ := Arena.merge hLaid (by simp) h.stop_lt
  refine ⟨a', ?_, hArena⟩
  simp only [ChunkAllocator.free, h.first_ne_zero, hBlock]
  rw [hMerge]
  simp [hSize]

/-- `expand` adds a free chunk behind the last one and merges. -/
theorem expand (h : Arena a start stop chunks) {size : Nat} (hSize : headerSize ≤ size)
    (hRoom : stop + size < wordSize) :
    ∃ a', ChunkAllocator.expand a size = some a' ∧
      Arena a' start (stop + size)
        (coalesce bothFree joined (chunks ++ [⟨stop, false, size - headerSize⟩])) := by
  obtain ⟨before, c, hSplit⟩ : ∃ before c, chunks = before ++ [c] := by
    rcases eq_nil_or_concat chunks with hNil | ⟨before, c, hConcat⟩
    · exact absurd hNil h.nonempty
    · exact ⟨before, c, by rw [hConcat, concat_eq_append]⟩
  have hLaid := hSplit ▸ h.laid
  have hLimit := hLaid.length_lt h.stop_lt
  rw [length_append] at hLimit
  have hLast := findLast_spec hLaid (Nat.lt_of_add_right_lt hLimit)
  obtain ⟨_, _, hFront, hHead, rfl, hPos, hUsed, hChunkSize, -, rfl⟩ := laid_append.mp hLaid
  have hBehind := c.address_lt_stop
  have hNe : c.address ≠ c.stop := by omega
  have hAppendix : wrap32 (c.address + headerSize + (a.memory c.address).size) = c.stop := by
    rw [hChunkSize]
    exact wrap32_of_lt h.stop_lt
  have hExpanded : Laid (update (update a.memory c.stop
      { next := 0, used := false, size := sub32 size headerSize }) c.address
      { a.memory c.address with next := c.stop }) a.first start
      (before ++ [c, ⟨c.stop, false, size - headerSize⟩]) 0 (c.stop + size) := by
    refine laid_append.mpr ⟨_, _, hFront.congr fun d _ hd => ?_, ?_⟩
    · rw [update_of_ne (by omega), update_of_ne (by omega)]
    · have hAppended : (⟨c.stop, false, size - headerSize⟩ : Chunk).stop = c.stop + size := by
        simp only [Chunk.stop]
        omega
      simp only [laid_cons, laid_nil, update_self, update_of_ne hNe.symm, hAppended]
      exact ⟨hHead, trivial, hPos, hUsed, hChunkSize, trivial, trivial, by omega, trivial,
        sub32_of_le hSize (by omega), trivial, trivial⟩
  obtain ⟨a', hMerge, hArena⟩ := Arena.merge hExpanded (by simp) hRoom
  refine ⟨a', ?_, ?_⟩
  · simp only [ChunkAllocator.expand, h.first_ne_zero, hLast, hAppendix, update_of_ne hNe]
    exact hMerge
  · rw [hSplit, append_assoc, singleton_append]
    exact hArena

end Arena

end Kernel.ChunkAllocator
