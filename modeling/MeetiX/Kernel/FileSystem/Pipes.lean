import MeetiX.Base.Ring
import MeetiX.Kernel.Utils.HashMap

/-! `Pipes` and the read and write requests of `FsDelegatePipe`. Pointers are addresses; the bytes
of a buffer are indexed by their offset. A copy that leaves the buffer has no result. Lengths are
signed and converted to 32 bits where the source does it. -/
namespace Kernel

open Base.Ring

namespace Pipes

abbrev PipeID := Int

def pipeDefaultCapacity : Nat := 0x400

structure Pipe where
  buffer : Nat
  write : Nat
  read : Nat
  size : Nat
  capacity : Nat
  references : List Pid
  /-- The block at `buffer`, by offset. -/
  bytes : Nat → UInt8

end Pipes

open Pipes in
structure Pipes where
  pipeNextID : PipeID
  pipes : HashMap PipeID Pipe

namespace Pipes

def initial : Pipes := ⟨0, HashMap.empty⟩

variable (store : Pipes)

/-- `Pipes::create` with the block the kernel heap answers, 0 if it has none. -/
def create (buffer : Nat) (bytes : Nat → UInt8) : PipeID × Pipes :=
  if buffer ≠ 0 then
    let pipe : Pipe :=
      { buffer := buffer, write := buffer, read := buffer, size := 0,
        capacity := pipeDefaultCapacity, references := [], bytes := bytes }
    (store.pipeNextID,
      { pipeNextID := Int.bmod (store.pipeNextID + 1) wordSize
        pipes := store.pipes.add store.pipeNextID pipe })
  else (-1, store)

variable (id : PipeID)

def setPipe (pipe : Pipe) : Pipes :=
  { store with pipes := store.pipes.assign id pipe }

def addReference (pid : Pid) : Pipes :=
  match store.pipes.get id with
  | none => store
  | some pipe => setPipe store id { pipe with references := pid :: pipe.references }

variable (pipe : Pipe)

def hasReferenceFromOtherProcess (pid : Pid) : Bool :=
  pipe.references.any fun reference => reference ≠ pid

/-- `Pipes::removeReference` takes out the first entry of the process. The
pipe goes with its last reference. -/
def removeReference (pid : Pid) : Pipes :=
  match store.pipes.get id with
  | none => store
  | some pipe =>
    let references := pipe.references.erase pid
    if references = [] then { store with pipes := store.pipes.erase id }
    else setPipe store id { pipe with references := references }

/-- How often the loop of `Memory::copy` runs, and in general a signed value
as `uint32_t`. -/
def toUInt32 (value : Int) : Nat := (value % (wordSize : Int)).toNat

/-- `Memory::copy` out of the buffer. -/
def copyFrom (source count : Nat) : Option (List UInt8) :=
  if pipe.buffer ≤ source ∧ source + count ≤ pipe.buffer + pipe.capacity then
    some (slice pipe.bytes (source - pipe.buffer) count)
  else none

/-- `Memory::copy` into the buffer. -/
def copyTo (target : Nat) (data : List UInt8) (count : Nat) : Option Pipe :=
  if pipe.buffer ≤ target ∧ target + count ≤ pipe.buffer + pipe.capacity then
    some { pipe with bytes := overwrite pipe.bytes (target - pipe.buffer) (data.take count) }
  else none

def endOf : Nat := wrap32 (pipe.buffer + pipe.capacity)

/-- The copying part of `requestRead`: the bytes and the moved read pointer. -/
def copyOut (length : Int) : Option (List UInt8 × Pipe) :=
  let spaceToEnd := sub32 (endOf pipe) pipe.read
  let copied : Option (List UInt8 × Nat) :=
    if length > spaceToEnd then
      let remaining := toUInt32 (length - spaceToEnd)
      match copyFrom pipe pipe.read spaceToEnd, copyFrom pipe pipe.buffer remaining with
      | some head, some tail => some (head ++ tail, wrap32 (pipe.buffer + remaining))
      | _, _ => none
    else
      match copyFrom pipe pipe.read (toUInt32 length) with
      | some head => some (head, wrap32 (pipe.read + toUInt32 length))
      | none => none
  copied.map fun (bytes, read) =>
    (bytes, { pipe with read := if read = endOf pipe then pipe.buffer else read })

/-- The copying part of `requestWrite`: the filled buffer and the moved write
pointer. -/
def copyIn (data : List UInt8) (length : Int) : Option Pipe :=
  let spaceToEnd := sub32 (endOf pipe) pipe.write
  let copied : Option (Pipe × Nat) :=
    if length > spaceToEnd then
      let remain := toUInt32 (length - spaceToEnd)
      match copyTo pipe pipe.write data spaceToEnd with
      | none => none
      | some pipe =>
        match copyTo pipe pipe.buffer (data.drop spaceToEnd) remain with
        | none => none
        | some pipe => some (pipe, wrap32 (pipe.buffer + remain))
    else
      match copyTo pipe pipe.write data (toUInt32 length) with
      | none => none
      | some pipe => some (pipe, wrap32 (pipe.write + toUInt32 length))
  copied.map fun (pipe, write) =>
    { pipe with write := if write = endOf pipe then pipe.buffer else write }

inductive Status
  | successful
  | error
  deriving DecidableEq, Repr

/-- A request either finishes its transaction with a result and a status or
asks for it to be repeated. -/
inductive Answer
  | finished (result : Int) (status : Status)
  | again
  deriving DecidableEq, Repr

/-- `requestRead`: the answer and the bytes copied to the caller's buffer. -/
def requestRead (isBlocking : Bool) (pid : Pid) (length : Int) :
    Option (Answer × List UInt8 × Pipes) :=
  match store.pipes.get id with
  | none => some (.finished (-1) .error, [], store)
  | some pipe =>
    let length := if (pipe.size : Int) ≥ length then length else pipe.size
    match copyOut pipe length with
    | none => none
    | some (bytes, pipe) =>
      if length > 0 then
        some (.finished length .successful, bytes,
          setPipe store id { pipe with size := toUInt32 (pipe.size - length) })
      else if isBlocking then
        if !hasReferenceFromOtherProcess pipe pid then
          some (.finished 0 .error, bytes, setPipe store id pipe)
        else some (.again, bytes, setPipe store id pipe)
      else some (.finished 0 .successful, bytes, setPipe store id pipe)

def requestWrite (isBlocking : Bool) (pid : Pid) (data : List UInt8)
    (length : Int) : Option (Answer × Pipes) :=
  match store.pipes.get id with
  | none => some (.finished (-1) .error, store)
  | some pipe =>
    let space := sub32 pipe.capacity pipe.size
    if space > 0 then
      let length := if (space : Int) ≥ length then length else space
      match copyIn pipe data length with
      | none => none
      | some pipe =>
        some (.finished length .successful,
          setPipe store id { pipe with size := toUInt32 (pipe.size + length) })
    else if isBlocking then
      if hasReferenceFromOtherProcess pipe pid then some (.again, store)
      else some (.finished (-1) .error, store)
    else some (.finished (-1) .successful, store)

end Pipes

end Kernel
