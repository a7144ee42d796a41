import MeetiX.Kernel.Memory.AddressStack
import MeetiX.Kernel.Utils.HashMap

/-! `MessageController`: one queue of messages per thread, a doubly linked list of blocks that are
taken from pools by size and go back to them. Memory maps the address of a block to its header and
bytes, and an entry of the map holds its queue head. Loops along `next` carry fuel, and an
operation whose loop does not end has no result. -/
namespace Kernel.MessageController

open Function

def transactionNone : Nat := 0

def messageMaximumLength : Nat := 8192

def messageMaximumQueueContent : Nat := 8192 * 32

/-- `sizeof(MessageHeader)`. -/
def headerSize : Nat := 20

inductive SendStatus
  | successful
  | queueFull
  | failed
  | exceedsMaximum
  deriving DecidableEq, Repr

inductive ReceiveStatus
  | successful
  | queueEmpty
  | exceedsBufferSize
  deriving DecidableEq, Repr

/-- A message block: the fields of `MessageHeader` and the bytes that follow
the header in memory. -/
structure MessageHeader where
  sender : Tid
  transaction : Nat
  length : Nat
  previous : Nat
  next : Nat
  bytes : List UInt8
  deriving DecidableEq, Repr

structure MessageQueueHead where
  first : Nat := 0
  last : Nat := 0
  total : Nat := 0
  deriving DecidableEq, Repr

inductive Pool
  | pool32
  | pool64
  | pool256
  | pool2048
  | pool4096
  | pool8192
  deriving DecidableEq, Repr

def Pool.blockSize : Pool → Nat
  | .pool32 => 32
  | .pool64 => 64
  | .pool256 => 256
  | .pool2048 => 2048
  | .pool4096 => 4096
  | .pool8192 => 8192

/-- The size classes that `get` and `release` both test in this order. -/
def poolFor (size : Nat) : Option Pool :=
  if size < 32 then some .pool32
  else if size < 64 then some .pool64
  else if size < 256 then some .pool256
  else if size < 2048 then some .pool2048
  else if size < 4096 then some .pool4096
  else if size < 8192 then some .pool8192
  else none

/-- The kernel heap as the pools see it, for a heap that never runs out: a
new block is not null and is none of the blocks handed out before. The first
argument lists address and size of those. -/
structure BlockSource where
  new : List (Nat × Nat) → Nat → Nat
  new_ne_zero : ∀ blocks size, new blocks size ≠ 0
  new_fresh : ∀ blocks size, new blocks size ∉ blocks.map Prod.fst

structure State where
  queues : Option (HashMap Tid MessageQueueHead)
  pools : Pool → AddressStack
  memory : Nat → MessageHeader
  /-- Address and size of the blocks taken from the kernel heap so far. -/
  blocks : List (Nat × Nat)

/-- The static state before the first call. -/
def State.initial : State where
  queues := none
  pools _ := AddressStack.empty
  memory _ := ⟨0, 0, 0, 0, 0, []⟩
  blocks := []

def State.setPool (s : State) (pool : Pool) (stack : AddressStack) : State :=
  { s with pools := update s.pools pool stack }

/-- The loop of `refill`, with the number of rounds left. -/
def refill (heap : BlockSource) (pool : Pool) (size : Nat) : Nat → State → State
  | 0, s => s
  | rounds + 1, s =>
    let addr := heap.new s.blocks size
    if addr = 0 then s
    else refill heap pool size rounds
      { s.setPool pool ((s.pools pool).push addr) with blocks := (addr, size) :: s.blocks }

/-- `getFromPool` calls itself again after a refill. -/
def getFromPool (heap : BlockSource) (pool : Pool) (size : Nat) : Nat → State → Option (Nat × State)
  | 0, _ => none
  | fuel + 1, s =>
    let addr := (s.pools pool).pop.1
    let s := s.setPool pool (s.pools pool).pop.2
    if addr = 0 then getFromPool heap pool size fuel (refill heap pool size 32 s)
    else some (addr, s)

def get (heap : BlockSource) (size : Nat) (s : State) : Option (Nat × State) :=
  match poolFor size with
  | some pool => getFromPool heap pool pool.blockSize 2 s
  | none => some (0, s)

def release (s : State) (m : Nat) : State :=
  match poolFor (headerSize + (s.memory m).length) with
  | some pool => s.setPool pool ((s.pools pool).push m)
  | none => s

/-- The loop of `clear` over the messages of a queue. -/
def releaseAll : Nat → Nat → State → Option State
  | 0, m, s => if m = 0 then some s else none
  | fuel + 1, m, s =>
    if m = 0 then some s else releaseAll fuel (s.memory m).next (release s m)

def clear (s : State) (tid : Tid) : Option State :=
  match s.queues with
  | none => some s
  | some queues =>
    match queues.get tid with
    | none => some s
    | some head =>
      (releaseAll s.blocks.length head.first s).map fun s =>
        { s with queues := some (queues.erase tid) }

variable (memory : Nat → MessageHeader)

def writeMessage (message : Nat) (source : Tid)
    (content : List UInt8) (tx : Nat) : Nat → MessageHeader :=
  update memory message
    { memory message with
      transaction := tx
      sender := source
      length := content.length
      bytes := content ++ (memory message).bytes.drop content.length }

def appendMessage (queue : MessageQueueHead) (message : Nat) :
    (Nat → MessageHeader) × MessageQueueHead :=
  let first := if queue.first = 0 then message else queue.first
  let memory :=
    if queue.last ≠ 0 then
      update memory queue.last { memory queue.last with next := message }
    else memory
  let memory := update memory message
    { memory message with previous := queue.last, next := 0 }
  (memory, { queue with first := first, last := message })

/-- `sendMessage`. A message that fits no pool is refused with
`MESSAGE_RECEIVE_STATUS_FAILED`, which has the value of the send status. -/
def sendMessage (heap : BlockSource) (s : State) (target source : Tid) (content : List UInt8)
    (tx : Nat) : Option (SendStatus × State) :=
  let queues := s.queues.getD HashMap.empty
  let s := { s with queues := some queues }
  if content.length > messageMaximumLength then some (.exceedsMaximum, s)
  else
    let queue := (queues.get target).getD {}
    let queues := if (queues.get target).isNone then queues.add target queue else queues
    let s := { s with queues := some queues }
    if wrap32 (queue.total + content.length) > messageMaximumQueueContent then
      some (.queueFull, s)
    else
      match get heap (headerSize + content.length) s with
      | none => none
      | some (message, s) =>
        if message = 0 then some (.failed, s)
        else
          let appended :=
            appendMessage (writeMessage s.memory message source content tx) queue message
          let queue :=
            { appended.2 with total := wrap32 (appended.2.total + content.length) }
          some (.successful,
            { s with memory := appended.1, queues := some (queues.assign target queue) })

/-- The search of `receiveMessage` for a transaction. -/
def findTransaction (memory : Nat → MessageHeader) (tx : Nat) : Nat → Nat → Option Nat
  | 0, n => if n = 0 then some 0 else none
  | fuel + 1, n =>
    if n = 0 then some 0
    else if (memory n).transaction = tx then some n
    else findTransaction memory tx fuel (memory n).next

/-- `receiveMessage` takes the message out of the queue: first the link from
behind, then the link from the front. -/
def unlinkMessage (queue : MessageQueueHead) (message : Nat) :
    (Nat → MessageHeader) × MessageQueueHead :=
  let previous := (memory message).previous
  let next := (memory message).next
  let last := if next ≠ 0 then queue.last else previous
  let memory :=
    if next ≠ 0 then update memory next { memory next with previous := previous }
    else if previous ≠ 0 then
      update memory previous { memory previous with next := 0 }
    else memory
  let first := if previous ≠ 0 then queue.first else next
  let memory :=
    if previous ≠ 0 then update memory previous { memory previous with next := next }
    else if next ≠ 0 then update memory next { memory next with previous := 0 }
    else memory
  (memory, { queue with first := first, last := last })

/-- `receiveMessage`. The second component is what is copied to `out`: the
header and as many bytes as its length says. -/
def receiveMessage (s : State) (target : Tid) (max tx : Nat) :
    Option (ReceiveStatus × Option MessageHeader × State) :=
  match s.queues with
  | none => some (.queueEmpty, none, s)
  | some queues =>
    match queues.get target with
    | none => some (.queueEmpty, none, s)
    | some queue =>
      let found :=
        if tx = transactionNone then some queue.first
        else findTransaction s.memory tx s.blocks.length queue.first
      match found with
      | none => none
      | some message =>
        if message = 0 then some (.queueEmpty, none, s)
        else
          let contentLen := (s.memory message).length
          if headerSize + contentLen > max then some (.exceedsBufferSize, none, s)
          else
            let out :=
              { s.memory message with bytes := (s.memory message).bytes.take contentLen }
            let unlinked := unlinkMessage s.memory queue message
            let s := release { s with memory := unlinked.1 } message
            let queue :=
              { unlinked.2 with total := sub32 unlinked.2.total contentLen }
            some (.successful, some out,
              { s with queues := some (queues.assign target queue) })

end Kernel.MessageController
