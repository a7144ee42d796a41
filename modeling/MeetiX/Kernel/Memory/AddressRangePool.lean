import MeetiX.Base.Run
import MeetiX.Base.Coalesce
import MeetiX.Kernel.Types

/-! The pool of virtual address ranges. The linked list of range objects is
the list of its ranges; an object is never reached by another way than from
the head of the list. -/
namespace Kernel.AddressRangePool

open Base.Coalesce

structure AddressRange where
  used : Bool
  base : Nat
  pages : Nat
  flags : Nat
deriving DecidableEq, Repr

/-- The range list. The empty list is the null `first` pointer of a pool that
was never initialized. -/
abbrev Pool := List AddressRange

def mergeable (current next : AddressRange) : Bool :=
  !current.used && !next.used &&
    wrap32 (current.base + wrap32 (current.pages * pageSize)) == next.base

def mergeWith (current next : AddressRange) : AddressRange :=
  { current with pages := wrap32 (current.pages + next.pages) }

def merge (pool : Pool) : Pool :=
  coalesce mergeable mergeWith pool

/-- The new range goes behind the last range with a lower base, wherever in
the list that is, and to the front if there is none. -/
def insertRange (newRange : AddressRange) : Pool → Pool
  | [] => [newRange]
  | range :: rest =>
    if (range :: rest).any (fun r => r.base < newRange.base) then
      range :: insertRange newRange rest
    else newRange :: range :: rest

/-- `initialize` for an area; the name is a keyword here. -/
def initializeArea (pool : Pool) (start stop : Nat) : Pool :=
  merge (insertRange
    { used := false, base := start, pages := sub32 stop start / pageSize, flags := 0 } pool)

/-- A free range of at least `requestedPages` is marked as used. Pages that
remain become a range of their own right behind it. -/
def takeRange (requestedPages flags : Nat) (range : AddressRange) : List AddressRange :=
  let remainingPages := toInt32 (sub32 range.pages requestedPages)
  if 0 < remainingPages then
    [{ range with used := true, flags := flags, pages := requestedPages },
      { used := false, base := wrap32 (range.base + wrap32 (requestedPages * pageSize)),
        pages := remainingPages.toNat, flags := 0 }]
  else [{ range with used := true, flags := flags }]

def allocateFrom (requestedPages flags : Nat) : Pool → Option (Nat × Pool)
  | [] => none
  | range :: rest =>
    if !range.used && requestedPages ≤ range.pages then
      some (range.base, takeRange requestedPages flags range ++ rest)
    else (allocateFrom requestedPages flags rest).map fun (base, pool) => (base, range :: pool)

/-- A request for no pages counts as a request for one. The result is 0 when
there is no range left. -/
def allocate (pool : Pool) (requestedPages flags : Nat) : Nat × Pool :=
  (allocateFrom (if requestedPages = 0 then 1 else requestedPages) flags pool).getD (0, pool)

/-- Marks the range as free that the search for `base` stops at. There is no
result when the search ends or when the range found is not in use. -/
def releaseFrom (base : Nat) : Pool → Option (Int × Pool)
  | [] => none
  | range :: rest =>
    if range.base = base then
      if range.used then some (toInt32 range.pages, { range with used := false } :: rest)
      else none
    else (releaseFrom base rest).map fun (freed, pool) => (freed, range :: pool)

/-- The search looks at the first range before it tests for the end of the
list, so a pool without ranges has no result. -/
def free (pool : Pool) (base : Nat) : Option (Int × Pool) :=
  match pool with
  | [] => none
  | _ => some (match releaseFrom base pool with
      | some (freedPages, released) => (freedPages, merge released)
      | none => (-1, pool))

end Kernel.AddressRangePool
