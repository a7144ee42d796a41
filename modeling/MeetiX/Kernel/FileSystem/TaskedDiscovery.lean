import MeetiX.Kernel.FileSystem.OpenLookup
import MeetiX.Kernel.Messaging.MessageController

/-! Discoveries that a delegate in user space has to answer. The kernel fills the page that it
shares with the delegate; sending it a message is not written yet, so every request fails. A
thread waits as long as the store does not know its transaction as finished, and then takes the
status from the page, whoever wrote it there. -/
namespace Kernel.FileSystem

open Base
open MessageController (SendStatus)

/-- The page that a tasked delegate shares with the kernel. For a discovery it has the
identifier of the parent in 8 bytes, a name in 512 bytes and the status of the answer. -/
abbrev TransactionStorage := Nat → UInt8

def filenameMax : Nat := 512

namespace TransactionStorage

variable (storage : TransactionStorage)

/-- `Memory::copy` into the page. -/
def copy (offset : Nat) (bytes : List UInt8) : TransactionStorage := fun address =>
  if offset ≤ address then bytes.getD (address - offset) (storage address) else storage address

/-- A request in the page. The null behind a name of 512 bytes is the first byte of the
status. -/
def request (parent : FsNode) (child : CString) : TransactionStorage :=
  (storage.copy 8 (child ++ [0])).copy 0 (littleEndianBytes 8 parent.physFsID)

/-- `resultStatus`. A number without a meaning counts as an error. -/
def resultStatus : FsDiscoveryStatus :=
  match littleEndian (slice storage (8 + filenameMax) 4) with
  | 0 => .successful
  | 1 => .notFound
  | 2 => .busy
  | _ => .error

/-- The same request once more changes nothing. -/
theorem request_request (parent : FsNode) (child : CString) :
    (storage.request parent child).request parent child = storage.request parent child := by
  funext address
  simp only [request, copy, List.getD_eq_getElem?_getD, Nat.zero_le, if_true]
  cases (littleEndianBytes 8 parent.physFsID)[address - 0]? with
  | some byte => rfl
  | none =>
    by_cases hName : 8 ≤ address
    · cases (child ++ [0])[address - 8]? <;> simp [hName]
    · simp [hName]

end TransactionStorage

/-- `FsDelegateTasked::requestDiscovery`, with the status in the handler. -/
def FsDelegateTasked.requestDiscovery (transactions : FsTransactionStore)
    (storage : TransactionStorage) (parent : FsNode) (child : CString)
    (status : FsDiscoveryStatus) :
    Nat × FsDiscoveryStatus × FsTransactionStore × TransactionStorage :=
  let (id, transactions) := transactions.nextTransaction
  if child.length > filenameMax then (id, .error, transactions, storage)
  else
    let storage := storage.request parent child
    let sendStatus := SendStatus.failed
    match sendStatus with
    | .successful => (id, status, transactions.setStatus id .waiting, storage)
    | .queueFull => (id, .busy, transactions.setStatus id .finished, storage)
    | .failed => (id, .error, transactions.setStatus id .finished, storage)
    | .exceedsMaximum => (id, status, transactions, storage)

/-- A discovery with the pages of the delegates and the delegate of its waiter. -/
structure TaskedHandler extends DiscoveryHandler where
  storages : Tid → TransactionStorage
  delegate : Option FsDelegate

variable (fs : FileSystem)

/-- `FsTransactionHandlerDiscovery::startTransaction` where tasked delegates answer too. -/
def startDiscovery (handler : TaskedHandler) :
    Outcome (StartStatus × FileSystem × TaskedHandler) := do
  let existing ← findInBuffer fs.vfs handler.absolutePath
  match existing.child, fs.vfs.getDelegate existing.parent,
    fs.vfs.getNodeById existing.parent with
  | none, some (.tasked thread), some parent =>
    let (transaction, status, transactions, storage) := FsDelegateTasked.requestDiscovery
      fs.transactions (handler.storages thread) parent existing.nameCurrent handler.status
    .ok (.withWaiter, { fs with transactions := transactions }, { handler with
      lastDiscoveredParent := some existing.parent
      status := status
      waiter := some transaction
      storages := Function.update handler.storages thread storage
      delegate := some (.tasked thread) })
  | _, delegate, _ =>
    let (status, fs, discovery) ← startWith nothingAfter fs handler.toDiscoveryHandler
    .ok (status, fs, { handler with toDiscoveryHandler := discovery, delegate := delegate })

/-- `finishDiscovery` of the delegate of the waiter. Only a tasked one does something. -/
def finishDiscovery (handler : TaskedHandler) : TaskedHandler :=
  match handler.delegate with
  | some (.tasked thread) => { handler with status := (handler.storages thread).resultStatus }
  | _ => handler

/-- `FsTransactionHandlerDiscovery::finishTransaction`, with nothing after it. -/
def finishTasked (handler : TaskedHandler) : Outcome (FinishStatus × FileSystem × TaskedHandler) :=
  if handler.allNodesDiscovered then .ok (.done, fs, handler)
  else
    let handler := finishDiscovery handler
    if handler.status = .successful then do
      let (status, fs, handler) ← startDiscovery fs handler
      if status = .failed ∨ handler.allNodesDiscovered then .ok (.done, fs, handler)
      else .ok (.repeatWithSameHandler, fs, handler)
    else .ok (.done, fs, handler)

def taskedDiscovery : FsTransactionHandler TaskedHandler :=
  ⟨startDiscovery, finishTasked, fun handler _ => handler⟩

/-- The checks of the waiter. -/
def awaitDiscovery := awaitTransaction taskedDiscovery (·.waiter)

/-- A thread that waits after the start of the discovery goes on after some number of checks. -/
def Released (handler : TaskedHandler) : Prop :=
  ∃ next asking rounds result, startDiscovery fs handler = .ok (.withWaiter, next, asking) ∧
    awaitDiscovery rounds next asking = .ok result

/-- The lookup of the path stops below a node of a tasked delegate. -/
structure Reaches (path : CString) (parent : Nat) (node : FsNode) (thread : Tid)
    (lastName : CString) : Prop where
  missing : fs.vfs.findExisting path = some ⟨parent, none, lastName⟩
  served : fs.vfs.getDelegate parent = some (.tasked thread)
  get : fs.vfs.getNodeById parent = some node

section Checks

variable {fs : FileSystem} {handler : TaskedHandler} {parent : Nat} {node : FsNode} {thread : Tid}
  {lastName : CString}

/-- A handler that waits for a request with the given page. -/
def awaits (handler : TaskedHandler) (fs : FileSystem) (parent : Nat) (thread : Tid)
    (storage : TransactionStorage) : TaskedHandler :=
  { handler with
    lastDiscoveredParent := some parent
    status := .error
    waiter := some fs.transactions.nextTransactionID
    storages := Function.update handler.storages thread storage
    delegate := some (.tasked thread) }

section Start

variable (h : Reaches fs handler.absolutePath parent node thread lastName)
  (hBuffer : (findInBuffer fs.vfs handler.absolutePath).isOk)

include h hBuffer

theorem Reaches.findInBuffer_eq :
    findInBuffer fs.vfs handler.absolutePath = .ok ⟨parent, none, lastName⟩ := by
  unfold findInBuffer at hBuffer ⊢
  rw [h.missing] at hBuffer ⊢
  split at hBuffer
  · cases hBuffer
  · rename_i hFits
    rw [if_neg hFits]

/-- A name that is too long is not written to the page, and the store learns nothing. -/
theorem Reaches.start_long (hLong : lastName.length > filenameMax) : startDiscovery fs handler =
      .ok (.withWaiter, { fs with transactions := fs.transactions.nextTransaction.2 },
        awaits handler fs parent thread (handler.storages thread)) := by
  simp only [startDiscovery, h.findInBuffer_eq hBuffer, h.served, h.get, bind, Except.bind,
    FsDelegateTasked.requestDiscovery, FsTransactionStore.nextTransaction, if_pos hLong, awaits]

/-- A shorter one is written there, and the transaction is finished at once. -/
theorem Reaches.start_short (hShort : lastName.length ≤ filenameMax) :
    startDiscovery fs handler = .ok (.withWaiter, fs.asked,
      awaits handler fs parent thread ((handler.storages thread).request node lastName)) := by
  simp only [startDiscovery, h.findInBuffer_eq hBuffer, h.served, h.get, bind, Except.bind,
    FsDelegateTasked.requestDiscovery, FsTransactionStore.nextTransaction,
    if_neg (Nat.not_lt.mpr hShort), awaits, asked, withTransactions]

end Start

/-- Nothing changes at a check of a transaction that the store does not know. -/
theorem await_unknown {transaction : Nat} (hWaiter : handler.waiter = some transaction)
    (hUnknown : fs.transactions.store.get transaction = none) (rounds : Nat) :
    awaitDiscovery rounds fs handler = .error .outOfFuel := by
  induction rounds with
  | zero => rfl
  | succ rounds ih =>
    rw [awaitDiscovery] at ih ⊢
    simp only [awaitTransaction, hWaiter, isTransactionWaiting, FsTransactionStore.getStatus,
      hUnknown, Option.getD_none, bind, Except.bind, if_true, ih]

/-- A request stands in the page and is answered by a success that nobody has written after
it. The next transaction is the one behind that of the waiter. -/
structure Repeats (fs : FileSystem) (handler : TaskedHandler) (parent : Nat) (node : FsNode)
    (thread : Tid) (lastName : CString) (transaction : Nat) : Prop where
  reaches : Reaches fs handler.absolutePath parent node thread lastName
  buffer : (findInBuffer fs.vfs handler.absolutePath).isOk
  short : lastName.length ≤ filenameMax
  searching : handler.allNodesDiscovered = false
  waiter : handler.waiter = some transaction
  delegate : handler.delegate = some (.tasked thread)
  written : (handler.storages thread).request node lastName = handler.storages thread
  answer : (handler.storages thread).resultStatus = .successful
  finished : fs.transactions.getStatus transaction = .finished
  next : fs.transactions.nextTransactionID = (transaction + 1) % 2 ^ 64

/-- A check of such a transaction makes the same request once more. -/
theorem Repeats.finish {transaction : Nat}
    (h : Repeats fs handler parent node thread lastName transaction) :
    finishTasked fs handler = .ok (.repeatWithSameHandler, fs.asked,
      awaits handler fs parent thread ((handler.storages thread).request node lastName)) := by
  have hStart := @Reaches.start_short fs { handler with status := .successful } parent node thread
    lastName h.reaches h.buffer h.short
  have hStatus : finishDiscovery handler = { handler with status := .successful } := by
    simp only [finishDiscovery, h.delegate, h.answer]
  rw [finishTasked, if_neg (ne_true_of_eq_false h.searching), hStatus]
  simp only [if_true, hStart, bind, Except.bind]
  exact if_neg (by simp [awaits, h.searching])

/-- What the request leaves is waited for in the same way. -/
theorem Repeats.await {transaction : Nat}
    (h : Repeats fs handler parent node thread lastName transaction) (rounds : Nat) :
    awaitDiscovery rounds fs handler = .error .outOfFuel := by
  induction rounds generalizing fs handler transaction with
  | zero => rfl
  | succ rounds ih =>
    have hNext : Repeats
        (fs.asked.without transaction)
        (awaits handler fs parent thread ((handler.storages thread).request node lastName)) parent
        node thread lastName fs.transactions.nextTransactionID :=
      ⟨⟨h.reaches.missing, h.reaches.served, h.reaches.get⟩, h.buffer, h.short, h.searching, rfl, rfl,
        by simp [awaits, TransactionStorage.request_request], by simp [awaits, h.written, h.answer],
        getStatus_asked h.next, rfl⟩
    refine (await_eq rounds (by exact h.waiter) h.finished).trans ?_
    change (finishTasked fs handler).bind _ = _
    rw [h.finish]
    exact congrArg (Except.map _) (ih hNext)

section Release

variable (h : Reaches fs handler.absolutePath parent node thread lastName)
  (hSearching : handler.allNodesDiscovered = false)
  (hBuffer : (findInBuffer fs.vfs handler.absolutePath).isOk)

include h hBuffer

/-- After a request for a name that is too long the thread waits for ever. -/
theorem Reaches.not_released_long
    (hNew : fs.transactions.store.get fs.transactions.nextTransactionID = none)
    (hLong : lastName.length > filenameMax) : ¬ Released fs handler := by
  rintro ⟨next, asking, rounds, result, hStart, hAwait⟩
  cases (h.start_long hBuffer hLong).symm.trans hStart
  rw [await_unknown (by rfl) (by exact hNew)] at hAwait
  cases hAwait

variable (hShort : lastName.length ≤ filenameMax)

include hShort hSearching

/-- With a success in the page it asks for ever. -/
theorem Reaches.not_released_successful
    (hAnswer : ((handler.storages thread).request node lastName).resultStatus = .successful) :
    ¬ Released fs handler := by
  rintro ⟨next, asking, rounds, result, hStart, hAwait⟩
  cases (h.start_short hBuffer hShort).symm.trans hStart
  have hRepeats : Repeats fs.asked (awaits handler fs parent thread
      ((handler.storages thread).request node lastName)) parent node thread lastName
      fs.transactions.nextTransactionID :=
    ⟨⟨h.missing, h.served, h.get⟩, hBuffer, hShort, hSearching, rfl, rfl,
      by simp [awaits, TransactionStorage.request_request], by simp [awaits, hAnswer],
      getStatus_asked_self, rfl⟩
  cases (hRepeats.await rounds).symm.trans hAwait

/-- Any other status ends the discovery at the first check. -/
theorem Reaches.released
    (hAnswer : ((handler.storages thread).request node lastName).resultStatus ≠ .successful) :
    Released fs handler := by
  refine ⟨_, _, 1, (1, fs.asked.without fs.transactions.nextTransactionID,
    finishDiscovery (awaits handler fs parent thread ((handler.storages thread).request node
      lastName))), h.start_short hBuffer hShort, ?_⟩
  refine (await_eq 0 (by rfl) getStatus_asked_self).trans ?_
  simp [awaits, taskedDiscovery, finishTasked, finishDiscovery, hSearching, hAnswer, Except.bind]

end Release

/-- A discovery that comes to a tasked delegate, with a transaction new to the store, releases its
thread if and only if no name is too long for the buffer, the missing one is not too long for the
page, and the page, with the request in it, has a status that is not successful. -/
theorem discovery_released_iff
    (hReaches : Reaches fs handler.absolutePath parent node thread lastName)
    (hSearching : handler.allNodesDiscovered = false)
    (hNew : fs.transactions.store.get fs.transactions.nextTransactionID = none) :
    Released fs handler ↔ (findInBuffer fs.vfs handler.absolutePath).isOk ∧
      lastName.length ≤ filenameMax ∧
      ((handler.storages thread).request node lastName).resultStatus ≠ .successful := by
  constructor
  · intro hReleased
    have hBuffer : (findInBuffer fs.vfs handler.absolutePath).isOk := by
      obtain ⟨next, asking, rounds, result, hStart, -⟩ := hReleased
      cases hFound : findInBuffer fs.vfs handler.absolutePath with
      | error stop =>
        rw [startDiscovery, hFound] at hStart
        cases hStart
      | ok existing => rfl
    have hShort : lastName.length ≤ filenameMax := by
      by_contra hLong
      exact hReaches.not_released_long hBuffer hNew (Nat.not_le.mp hLong) hReleased
    exact ⟨hBuffer, hShort, fun hAnswer =>
      hReaches.not_released_successful hSearching hBuffer hShort hAnswer hReleased⟩
  · rintro ⟨hBuffer, hShort, hAnswer⟩
    exact hReaches.released hSearching hBuffer hShort hAnswer

end Checks

/-- A file system with a tasked delegate at `/mount/a`. -/
def oneDelegate : FileSystem := createDelegate (initial ⟨Ramdisk.rootEntry, [], 0⟩) 7 [97] 1

/-- A discovery of `/mount/a/` and a name of the given length. The page of the delegate is empty
but for the status. -/
def discoveryBelow (length : Nat) (status : UInt8) : TaskedHandler :=
  let path : CString := [slash, 109, 111, 117, 110, 116, slash, 97, slash] ++
    List.replicate length 98
  { DiscoveryHandler.new path ⟨path, 0, -1, .error⟩ with
    storages := fun _ address => if address = 8 + filenameMax then status else 0
    delegate := none }

/-- The status 3 is that of an error. -/
theorem discovery_released_iff_error : Released oneDelegate (discoveryBelow 3 3) :=
  (@discovery_released_iff oneDelegate (discoveryBelow 3 3) 4 _ 7 [98, 98, 98] ⟨rfl, rfl, rfl⟩ rfl
    rfl).mpr ⟨by decide, by decide, by decide⟩

/-- The thread is not released when the name has 513 bytes, nor when the page is a new one. -/
theorem discovery_never_released :
    ¬ Released oneDelegate (discoveryBelow 513 3) ∧ ¬ Released oneDelegate (discoveryBelow 3 0) := by
  constructor
  · exact @Reaches.not_released_long oneDelegate (discoveryBelow 513 3) 4 _ 7
      (List.replicate 513 98) ⟨by decide +kernel, rfl, rfl⟩ (by decide +kernel) rfl
      (by decide +kernel)
  · exact @Reaches.not_released_successful oneDelegate (discoveryBelow 3 0) 4 _ 7 [98, 98, 98]
      ⟨rfl, rfl, rfl⟩ rfl (by decide) (by decide) (by decide)

end Kernel.FileSystem
