import MeetiX.Kernel.FileSystem.FileSystem
import MeetiX.Kernel.FileSystem.FsPath

/-! The system call `fsOpen` on paths that the ramdisk delegate serves: the discovery node by
node, the waiter that goes on with it, and the open of what was found. A call leaves this model
when it asks another delegate, and has no result at a null pointer or behind a buffer. -/
namespace Kernel.FileSystem

/-- Why a call does not run to its end here. -/
inductive Stop
  | nullPointer
  | bufferOverflow
  | otherDelegate
  /-- The bound on the rounds of a loop was too small. -/
  | outOfFuel
  deriving DecidableEq, Repr

abbrev Outcome (α : Type) := Except Stop α

inductive FsDiscoveryStatus
  | successful
  | notFound
  | busy
  | error
  deriving DecidableEq, Repr

inductive FsOpenStatus
  | successful
  | notFound
  | error
  | busy
  deriving DecidableEq, Repr

/-- `FsTransactionHandlerStartStatus`. -/
inductive StartStatus
  | failed
  | immediateFinish
  | withWaiter
  deriving DecidableEq, Repr

/-- `FsTransactionHandlerFinishStatus`. -/
inductive FinishStatus
  | done
  | repeatWithSameHandler
  | keepWaitingWithNewHandler
  deriving DecidableEq, Repr

/-- The virtual functions of a transaction handler whose fields are `H`. -/
structure FsTransactionHandler (H : Type) where
  startTransaction : FileSystem → H → Outcome (StartStatus × FileSystem × H)
  finishTransaction : FileSystem → H → Outcome (FinishStatus × FileSystem × H)
  prepareTransactionRepeat : H → Nat → H

/-- `WaiterFsTransaction::isTransactionWaiting`. A repeat that fails to start
stores its mark under the number of the status, which is 2. -/
def isTransactionWaiting {H : Type} (functions : FsTransactionHandler H) (fs : FileSystem)
    (handler : H) (transactionID : Nat) : Outcome (Bool × FileSystem × H) :=
  match fs.transactions.getStatus transactionID with
  | .waiting => .ok (true, fs, handler)
  | .again => do
      let handler := functions.prepareTransactionRepeat handler transactionID
      let (restartStatus, fs, handler) ← functions.startTransaction fs handler
      if restartStatus ≠ .failed then .ok (true, fs, handler)
      else .ok (true, { fs with transactions := fs.transactions.setStatus 2 .finished }, handler)
  | .finished => do
      let (stat, fs, handler) ← functions.finishTransaction fs handler
      let fs := { fs with transactions := fs.transactions.removeTransaction transactionID }
      match stat with
      | .repeatWithSameHandler => .ok (true, fs, handler)
      | .keepWaitingWithNewHandler => .ok (true, fs, handler)
      | .done => .ok (false, fs, handler)
  | .unknown _ =>
    .ok (false, { fs with transactions := fs.transactions.removeTransaction transactionID }, handler)

/-- The scheduler checks the waiter of the thread until it need not wait. The number of checks is
returned. -/
def awaitTransaction {H : Type} (functions : FsTransactionHandler H) (waiter : H → Option Nat) :
    Nat → FileSystem → H → Outcome (Nat × FileSystem × H)
  | 0, _, _ => .error .outOfFuel
  | rounds + 1, fs, handler =>
    match waiter handler with
    | none => .error .nullPointer
    | some transaction => do
      let (waiting, fs, handler) ← isTransactionWaiting functions fs handler transaction
      if waiting then
        let (checks, fs, handler) ← awaitTransaction functions waiter rounds fs handler
        .ok (checks + 1, fs, handler)
      else .ok (1, fs, handler)

section Ramdisk

/-- What `requestDiscovery` finds on the ramdisk for a child of a node. -/
def entryBelow (ramdisk : Ramdisk) (parent : FsNode) (child : CString) :
    Outcome (Option RamdiskEntry) :=
  let ramdiskParent :=
    if parent.type = .mountpoint then some ramdisk.root else ramdisk.findById parent.physFsID
  match ramdiskParent with
  | none => .ok none
  | some ramdiskParent =>
    match ramdisk.findChild ramdiskParent child with
    | none => .error .nullPointer
    | some ramdiskNode => .ok ramdiskNode

def requestDiscovery (fs : FileSystem) (parent : Nat) (child : CString) :
    Outcome (Nat × FsDiscoveryStatus × FileSystem) :=
  match fs.vfs.getNodeById parent with
  | none => .error .nullPointer
  | some parentNode => do
      let (id, transactions) := fs.transactions.nextTransaction
      let transactions := transactions.setStatus id .finished
      match ← entryBelow fs.ramdisk parentNode child with
      | some ramdiskNode =>
        .ok (id, .successful, { fs with
          vfs := (createVfsNode fs.vfs ramdiskNode parent).2
          transactions := transactions })
      | none => .ok (id, .notFound, { fs with transactions := transactions })

/-- The parameters and the results of the system call. -/
structure SyscallFsOpen where
  path : CString
  flags : BitVec 32
  fd : Fd
  status : FsOpenStatus

/-- `FILE_FLAG_MODE_TRUNCATE`. -/
def truncates (flags : BitVec 32) : Bool := flags.getLsbD 4

/-- `FILE_FLAG_MODE_CREATE`. -/
def creates (flags : BitVec 32) : Bool := flags.getLsbD 6

/-- The fields of `FsTransactionHandlerOpen`. -/
structure OpenHandler where
  data : SyscallFsOpen
  discoveryStatus : FsDiscoveryStatus
  node : Nat
  status : FsOpenStatus

/-- A truncating open drops a buffer that is no longer on the ramdisk. -/
def truncate (flags : BitVec 32) (ramdiskNode : RamdiskEntry) : RamdiskEntry :=
  if truncates flags && !ramdiskNode.dataOnRamdisk then
    { ramdiskNode with datalength := 0, notOnRdBufferLength := 0, data := none }
  else ramdiskNode

/-- `FsDelegateRamdisk::requestOpen`, without its transaction. -/
def openEntry (fs : FileSystem) (handler : OpenHandler) : Outcome (FileSystem × OpenHandler) :=
  match fs.vfs.getNodeById handler.node with
  | none => .error .nullPointer
  | some node =>
    let ramdiskNode := fs.ramdisk.findById node.physFsID
    match handler.discoveryStatus with
    | .successful =>
      match ramdiskNode with
      | none => .error .nullPointer
      | some entry =>
        if entry.type ≠ .file then .ok (fs, { handler with status := .error })
        else
          .ok ({ fs with
            ramdisk := fs.ramdisk.modifyById node.physFsID (truncate handler.data.flags) },
            { handler with status := .successful })
    | .notFound =>
      if creates handler.data.flags then
        match ramdiskNode with
        | none => .error .nullPointer
        | some entry =>
          let (newRamdiskEntry, ramdisk) := fs.ramdisk.createChild entry handler.data.path
          let (created, vfs) := createVfsNode fs.vfs newRamdiskEntry handler.node
          .ok ({ fs with ramdisk := ramdisk, vfs := vfs },
            { handler with node := created, status := .successful })
      else .ok (fs, { handler with status := .notFound })
    | _ => .ok (fs, handler)

def requestOpen (fs : FileSystem) (handler : OpenHandler) :
    Outcome (Nat × FileSystem × OpenHandler) := do
  let (id, transactions) := fs.transactions.nextTransaction
  let (fs, handler) ← openEntry { fs with transactions := transactions } handler
  .ok (id, { fs with transactions := fs.transactions.setStatus id .finished }, handler)

end Ramdisk

/-- `FsTransactionHandlerOpen::finishTransaction` for a thread of a process. -/
def finishOpen (pid : Pid) (fs : FileSystem) (handler : OpenHandler) :
    Outcome (FinishStatus × FileSystem × OpenHandler) :=
  let data := { handler.data with status := handler.status }
  if handler.status = .successful then
    match fs.vfs.getNodeById handler.node with
    | none => .error .nullPointer
    | some node =>
      let (fd, fs) := fs.mapFile pid node data.flags.toInt (-1)
      .ok (.done, fs, { handler with data := { data with fd := fd } })
  else .ok (.done, fs, { handler with data := { data with fd := -1 } })

/-- `FsTransactionHandlerOpen::startTransaction`. Only a repeated transaction
starts again, to the given depth. -/
def startOpen (pid : Pid) : Nat → FileSystem → OpenHandler →
    Outcome (StartStatus × FileSystem × OpenHandler)
  | 0, _, _ => .error .outOfFuel
  | depth + 1, fs, handler =>
    match fs.vfs.getDelegate handler.node with
    | none => .ok (.failed, fs, handler)
    | some .ramdisk => do
        let (transaction, fs, handler) ← requestOpen fs handler
        let (waiting, fs, handler) ← isTransactionWaiting
          ⟨startOpen pid depth, finishOpen pid, fun handler _ => handler⟩ fs handler transaction
        .ok (if waiting then .withWaiter else .immediateFinish, fs, handler)
    | some _ => .error .otherDelegate

/-- The fields of `FsTransactionHandlerDiscoveryOpen`, and the transaction of
the waiter it last set on its thread. -/
structure DiscoveryHandler where
  absolutePath : CString
  data : SyscallFsOpen
  status : FsDiscoveryStatus
  node : Option Nat
  lastDiscoveredParent : Option Nat
  allNodesDiscovered : Bool
  waiter : Option Nat

def DiscoveryHandler.new (absolutePath : CString) (data : SyscallFsOpen) : DiscoveryHandler where
  absolutePath := absolutePath
  data := data
  status := .error
  node := none
  lastDiscoveredParent := none
  allNodesDiscovered := false
  waiter := none

/-- What a handler that derives from the discovery does after it. -/
abbrev Afterwork := FileSystem → DiscoveryHandler →
  Outcome (FinishStatus × FileSystem × DiscoveryHandler)

/-- A discovery by itself. -/
def nothingAfter : Afterwork := fun fs handler => .ok (.done, fs, handler)

def afterFinishTransaction (pid : Pid) : Afterwork := fun fs handler =>
  if handler.status = .successful ∨ handler.status = .notFound then
    let discoveredNode :=
      if handler.status = .notFound then handler.lastDiscoveredParent else handler.node
    match discoveredNode with
    | none => .error .nullPointer
    | some discoveredNode => do
        let (startStatus, fs, opened) ←
          startOpen pid 1 fs ⟨handler.data, handler.status, discoveredNode, .error⟩
        let handler := { handler with data := opened.data }
        match startStatus with
        | .withWaiter => .ok (.keepWaitingWithNewHandler, fs, handler)
        | .immediateFinish => .ok (.done, fs, handler)
        | .failed =>
          .ok (.done, fs, { handler with data := { handler.data with status := .error } })
  else
    .ok (.done, fs, { handler with data := { handler.data with fd := -1, status := .error } })

def pathMax : Nat := 4096

/-- `findExisting` with a buffer of `PATH_MAX` bytes for the names. Each round of its loop copies
a component there with a null behind it, however long it is. -/
def findInBuffer (vfs : Vfs) (absolutePath : CString) : Outcome Vfs.Existing :=
  if (components absolutePath).zipIdx.any fun (name, round) =>
      pathMax ≤ name.length ∧ vfs.findExistingFrom round Vfs.root absolutePath = none then
    .error .bufferOverflow
  else
    match vfs.findExisting absolutePath with
    | none => .error .outOfFuel
    | some existing => .ok existing

/-- `FsTransactionHandlerDiscovery::startTransaction` with the given `afterFinishTransaction`.
Where it calls `finishTransaction` all nodes are discovered, so that goes to the latter at once.
-/
def startWith (after : Afterwork) (fs : FileSystem) (handler : DiscoveryHandler) :
    Outcome (StartStatus × FileSystem × DiscoveryHandler) := do
  match ← findInBuffer fs.vfs handler.absolutePath with
  | ⟨_, some child, _⟩ =>
    let handler := { handler with
      status := .successful, node := some child, allNodesDiscovered := true }
    let (_, fs, handler) ← after fs handler
    .ok (.immediateFinish, fs, handler)
  | ⟨parent, none, lastName⟩ =>
    match fs.vfs.getDelegate parent with
    | none =>
      let handler := { handler with status := .error, allNodesDiscovered := true }
      let (_, fs, handler) ← after fs handler
      .ok (.failed, fs, handler)
    | some .ramdisk =>
      let (transaction, status, fs) ← requestDiscovery fs parent lastName
      .ok (.withWaiter, fs, { handler with
        lastDiscoveredParent := some parent, status := status, waiter := some transaction })
    | some _ => .error .otherDelegate

/-- `FsTransactionHandlerDiscovery::finishTransaction`. The delegates of this module do nothing in
`finishDiscovery`. -/
def finishWith (after : Afterwork) (fs : FileSystem) (handler : DiscoveryHandler) :
    Outcome (FinishStatus × FileSystem × DiscoveryHandler) :=
  if !handler.allNodesDiscovered ∧ handler.status = .successful then do
    let (status, fs, handler) ← startWith after fs handler
    if status = .failed then .ok (.done, fs, handler)
    else if !handler.allNodesDiscovered then .ok (.repeatWithSameHandler, fs, handler)
    else after fs handler
  else after fs handler

def discoveryWith (after : Afterwork) : FsTransactionHandler DiscoveryHandler :=
  ⟨startWith after, finishWith after, fun handler _ => handler⟩

def startTransaction (pid : Pid) := startWith (afterFinishTransaction pid)

def finishTransaction (pid : Pid) := finishWith (afterFinishTransaction pid)

def waitForTransaction (pid : Pid) (rounds : Nat) (fs : FileSystem) (handler : DiscoveryHandler) :
    Outcome (FileSystem × SyscallFsOpen) := do
  let (_, fs, handler) ← awaitTransaction (discoveryWith (afterFinishTransaction pid))
    DiscoveryHandler.waiter rounds fs handler
  .ok (fs, handler.data)

def concatAsAbsolutePath (relativeBase path : CString) : CString :=
  match path with
  | [] => []
  | first :: _ => if first = slash then path else relativeBase ++ [slash] ++ path

/-- The system call `fsOpen` of a thread of the process. Each round of waiting
follows the discovery of one more component. -/
def fsOpen (fs : FileSystem) (pid : Pid) (workingDirectory : CString) (data : SyscallFsOpen) :
    Outcome (FileSystem × SyscallFsOpen) :=
  let targetPath := concatAsAbsolutePath workingDirectory data.path
  if pathMax ≤ targetPath.length then .error .bufferOverflow
  else do
    let (startStatus, fs, handler) ← startTransaction pid fs (.new targetPath data)
    match startStatus with
    | .withWaiter => waitForTransaction pid (targetPath.length + 1) fs handler
    | .immediateFinish => .ok (fs, handler.data)
    | .failed => .ok (fs, { handler.data with status := .error })

end Kernel.FileSystem
