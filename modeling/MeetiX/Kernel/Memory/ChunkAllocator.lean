import MeetiX.Kernel.Types

/-! `ChunkAllocator`: a singly linked list of chunk headers inside the managed memory, which maps
the address of a header to its fields. The loops carry fuel; one that does not end, or a read
through the null pointer, has no result. -/
namespace Kernel

open Function

namespace ChunkAllocator

/-- `sizeof(ChunkHeader)`. -/
def headerSize : Nat := 12

def minimumAllocationSize : Nat := 8

/-- The fuel of the loops. A list that does not run in a circle has fewer
chunks than there are addresses. -/
def chunkLimit : Nat := wordSize

structure ChunkHeader where
  next : Nat
  used : Bool
  size : Nat
  deriving DecidableEq, Repr

end ChunkAllocator

structure ChunkAllocator where
  first : Nat
  memory : Nat → ChunkAllocator.ChunkHeader

namespace ChunkAllocator

/-- The constructor, with memory that was never written. -/
def empty : ChunkAllocator := ⟨0, fun _ => ⟨0, false, 0⟩⟩

variable (a : ChunkAllocator)

def initializeArea (start stop : Nat) : ChunkAllocator where
  first := start
  memory := update a.memory start
    { next := 0, used := false, size := sub32 (sub32 stop start) headerSize }

/-- The loop of `merge`. A merged chunk is looked at again. -/
def mergeFrom : Nat → Nat → (Nat → ChunkHeader) → Option (Nat → ChunkHeader)
  | 0, _, _ => none
  | fuel + 1, current, memory =>
    let next := (memory current).next
    if next ≠ 0 then
      if !(memory current).used && !(memory next).used then
        mergeFrom fuel current (update memory current
          { memory current with
            size := wrap32 ((memory current).size + headerSize + (memory next).size)
            next := (memory next).next })
      else mergeFrom fuel next memory
    else some memory

def merge : Option ChunkAllocator :=
  if a.first = 0 then none
  else (mergeFrom chunkLimit a.first a.memory).map fun memory => { a with memory := memory }

/-- The loop of `expand` that looks for the last chunk. -/
def findLast (memory : Nat → ChunkHeader) : Nat → Nat → Option Nat
  | 0, _ => none
  | fuel + 1, last =>
    if (memory last).next ≠ 0 then findLast memory fuel (memory last).next else some last

def expand (size : Nat) : Option ChunkAllocator :=
  if a.first = 0 then none
  else
    match findLast a.memory chunkLimit a.first with
    | none => none
    | some last =>
      let appendix := wrap32 (last + headerSize + (a.memory last).size)
      let memory := update a.memory appendix
        { next := 0, used := false, size := sub32 size headerSize }
      let memory := update memory last { memory last with next := appendix }
      merge { a with memory := memory }

/-- The loop of `allocate`: the first free chunk with room for the block and
one more header, 0 if there is none. -/
def findFit (memory : Nat → ChunkHeader) (size : Nat) : Nat → Nat → Option Nat
  | 0, _ => none
  | fuel + 1, current =>
    if !(memory current).used && (memory current).size ≥ wrap32 (size + headerSize) then
      some current
    else if (memory current).next ≠ 0 then findFit memory size fuel (memory current).next
    else some 0

/-- The chunk is cut in two; the rest of it gets a header of its own. -/
def split (memory : Nat → ChunkHeader) (current size : Nat) : Nat → ChunkHeader :=
  let splinter := wrap32 (current + headerSize + size)
  let memory := update memory splinter
    { size := sub32 (sub32 (memory current).size size) headerSize
      used := false
      next := (memory current).next }
  update memory current { next := splinter, used := true, size := size }

def allocate (size : Nat) : Option (Nat × ChunkAllocator) :=
  if a.first = 0 then some (0, a)
  else
    let size := if size < minimumAllocationSize then minimumAllocationSize else size
    match findFit a.memory size chunkLimit a.first with
    | none => none
    | some current =>
      if current = 0 then some (0, a)
      else some (wrap32 (current + headerSize), { a with memory := split a.memory current size })

def free (mem : Nat) : Option (Nat × ChunkAllocator) :=
  if a.first = 0 then some (0, a)
  else
    let blockHeader := sub32 mem headerSize
    let memory := update a.memory blockHeader
      { a.memory blockHeader with used := false }
    (merge { a with memory := memory }).map fun merged => ((memory blockHeader).size, merged)

end ChunkAllocator

end Kernel
