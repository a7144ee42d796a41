import MeetiX.Kernel.FileSystem.CloneDescriptor
import MeetiX.Kernel.FileSystem.FsPath

/-! Everything that changes the nodes or the descriptors, in any order. The exit of a process
closes its descriptors one by one and drops its table; a fork clones them one by one. -/
namespace Kernel.FileSystem

open Base

inductive Operation
  | fsCreateNode (parentID : Nat) (name : CString) (type : FsNodeType) (physFsID : Nat)
  | createDelegate (thread : Tid) (name : CString) (physMountpointID : Nat)
  /-- The ramdisk delegate makes a node for an entry it found or created. -/
  | createVfsNode (ramdiskNode : RamdiskEntry) (parent : Nat)
  | pipe (pid : Pid) (buffer : Nat) (bytes : Nat → UInt8)
  /-- A delegate let a process open a node. -/
  | openNode (pid : Pid) (nodeID : Nat) (openFlags : Int)
  | close (pid : Pid) (fd : Fd)
  /-- A read, a write or a seek moved the offset. -/
  | move (pid : Pid) (fd : Fd) (offset : Int)
  | clonefd (sourceFd : Fd) (sourcePid : Pid) (targetFd : Fd) (targetPid : Pid)
  | unmapAll (pid : Pid)

/-- The state after an operation, if it follows no deleted content. -/
def execute (fs : FileSystem) : Operation → Option FileSystem
  | .fsCreateNode parentID name type physFsID => some (fs.fsCreateNode parentID name type physFsID)
  | .createDelegate thread name physMountpointID =>
    some (fs.createDelegate thread name physMountpointID)
  | .createVfsNode ramdiskNode parent =>
    match fs.vfs.getNodeById parent with
    | none => some fs
    | some _ => some { fs with vfs := (createVfsNode fs.vfs ramdiskNode parent).2 }
  | .pipe pid buffer bytes => some (fs.pipe pid buffer bytes).2.2
  | .openNode pid nodeID openFlags =>
    match fs.vfs.getNodeById nodeID with
    | none => some fs
    | some node => some (fs.mapFile pid node openFlags (-1)).2
  | .close pid fd =>
    match fs.nodeForDescriptor pid fd with
    | none => none
    | some (none, fs) => some fs
    | some (some (node, address), fs) => (fs.unmapFile pid node address).map Prod.snd
  | .move pid fd offset =>
    match fs.descriptors.pointer pid fd with
    | none => some fs
    | some address =>
      (fs.descriptors.modifyContent address fun content => { content with offset := offset }).map
        fun descriptors => { fs with descriptors := descriptors }
  | .clonefd sourceFd sourcePid targetFd targetPid =>
    (fs.clonefd sourceFd sourcePid targetFd targetPid).map fun answer => answer.2.2
  | .unmapAll pid => some { fs with descriptors := fs.descriptors.unmapAll pid }

def Step (fs : FileSystem) (operation : Operation) (next : FileSystem) : Prop :=
  fs.execute operation = some next

section Invariant

variable {fs next : FileSystem}

theorem initial_valid (ramdisk : Ramdisk) : (initial ramdisk).Valid where
  vfs := Vfs.initial_valid
  descriptors := FileDescriptors.initial_valid
  root := rfl
  mountRoot := rfl
  pipeRoot := rfl

theorem Valid.insert (h : fs.Valid) {parent : Nat} (hParent : (fs.vfs.nodes.get parent).isSome)
    (delegate : Option FsDelegate) (type : FsNodeType) (physFsID : Nat) (name : Option CString) :
    { fs with vfs := (fs.vfs.insert parent delegate type physFsID name).2 }.Valid where
  vfs := h.vfs.insert hParent
  descriptors := h.descriptors
  root := Vfs.isSome_get_insert h.vfs hParent h.root
  mountRoot := Vfs.isSome_get_insert h.vfs hParent h.mountRoot
  pipeRoot := Vfs.isSome_get_insert h.vfs hParent h.pipeRoot

theorem Valid.fsCreateNode (h : fs.Valid) (parentID : Nat) (name : CString) (type : FsNodeType)
    (physFsID : Nat) : (fs.fsCreateNode parentID name type physFsID).Valid := by
  rw [FileSystem.fsCreateNode]
  split
  · exact h
  · rename_i parent hParent
    split
    · exact ⟨h.vfs.modify fun _ => ⟨rfl, rfl, rfl⟩, h.descriptors, Vfs.isSome_get_modify h.root,
        Vfs.isSome_get_modify h.mountRoot, Vfs.isSome_get_modify h.pipeRoot⟩
    · exact h.insert (Option.isSome_of_eq_some hParent) _ _ _ _

theorem Valid.pipe (h : fs.Valid) (pid : Pid) (buffer : Nat) (bytes : Nat → UInt8) :
    (fs.pipe pid buffer bytes).2.2.Valid := by
  have hNode := h.insert h.pipeRoot none .pipe
    ((fs.pipes.create buffer bytes).1 % (2 ^ 64 : Nat)).toNat none
  have hPipes : { fs with
      vfs := (fs.vfs.insert Vfs.pipeRoot none .pipe
        ((fs.pipes.create buffer bytes).1 % (2 ^ 64 : Nat)).toNat none).2
      pipes := (fs.pipes.create buffer bytes).2 }.Valid := hNode.of_descriptors rfl hNode.descriptors
  rw [FileSystem.pipe]
  apply Valid.mapFile
  apply Valid.mapFile
  exact hPipes

theorem close_cases {pid : Pid} {fd : Fd}
    (hClose : fs.execute (.close pid fd) = some next) : next = fs.touch pid ∨
      ∃ node address closed, (fs.touch pid).unmapFile pid node address = some (closed, next) := by
  rw [execute] at hClose
  split at hClose
  · cases hClose
  · rename_i touched hFind
    cases hClose
    exact .inl (nodeForDescriptor_state hFind)
  · rename_i node address touched hFind
    obtain rfl := nodeForDescriptor_state hFind
    obtain ⟨⟨closed, unmapped⟩, hUnmap, rfl⟩ := Option.map_eq_some_iff.mp hClose
    exact .inr ⟨node, address, closed, hUnmap⟩

/-- No operation breaks the tree or the tables. -/
theorem Step.valid {operation : Operation} (hStep : Step fs operation next)
    (h : fs.Valid) : next.Valid := by
  cases operation with
  | fsCreateNode parentID name type physFsID =>
    cases hStep
    exact h.fsCreateNode parentID name type physFsID
  | createDelegate thread name physMountpointID =>
    cases hStep
    rw [FileSystem.createDelegate]
    split
    · exact h
    · exact h.insert h.mountRoot _ _ _ _
  | createVfsNode ramdiskNode parent =>
    rw [Step, execute] at hStep
    split at hStep
    · cases hStep
      exact h
    · rename_i node hParent
      cases hStep
      exact h.insert (Option.isSome_of_eq_some hParent) _ _ _ _
  | pipe pid buffer bytes =>
    cases hStep
    exact h.pipe pid buffer bytes
  | openNode pid nodeID openFlags =>
    rw [Step, execute] at hStep
    split at hStep
    · cases hStep
      exact h
    · cases hStep
      exact h.mapFile _ pid openFlags (-1)
  | close pid fd =>
    rcases close_cases hStep with rfl | ⟨node, address, closed, hUnmap⟩
    · exact h.touch pid
    · exact (unmapFile_cases (h.touch pid) hUnmap).1
  | move pid fd offset =>
    rw [Step, execute] at hStep
    split at hStep
    · cases hStep
      exact h
    · obtain ⟨descriptors, hModify, rfl⟩ := Option.map_eq_some_iff.mp hStep
      have hId : ∀ content : FileDescriptorContent,
          { content with offset := offset }.id = content.id := fun _ => rfl
      exact h.modifyContent hId hModify
  | clonefd sourceFd sourcePid targetFd targetPid =>
    obtain ⟨⟨r, status, cloned⟩, hClone, rfl⟩ := Option.map_eq_some_iff.mp hStep
    exact clonefd_valid h hClone
  | unmapAll pid =>
    cases hStep
    exact h.of_descriptors rfl (h.descriptors.unmapAll pid)

theorem run_valid {ramdisk : Ramdisk} {operations : List Operation}
    (run : Run Step (initial ramdisk) operations fs) : fs.Valid :=
  run.invariant (initial_valid ramdisk) fun _ _ _ hValid hStep => hStep.valid hValid

/-- In every reachable state `clonefd` changes only the entry it returns, and
makes it a copy of the source, exactly when the call is safe for the source
process. -/
theorem clonefd_framed_iff_safe {ramdisk : Ramdisk} {operations : List Operation}
    (run : Run Step (initial ramdisk) operations fs) (sourceFd : Fd) (sourcePid : Pid)
    (targetFd : Fd) (targetPid : Pid) :
    fs.CloneFramed sourceFd sourcePid targetFd targetPid ↔
      fs.CloneSafe sourceFd sourcePid targetFd targetPid :=
  ⟨safe_of_framed (run_valid run), framed_of_safe (run_valid run)⟩

end Invariant

def emptyRamdisk : Ramdisk := ⟨Ramdisk.rootEntry, [], 0⟩

/-- A file below the root, opened twice by each of the processes 1 and 2. -/
def twoProcesses : FileSystem :=
  let fs := (initial emptyRamdisk).fsCreateNode Vfs.root [97] .file 1
  let node : FsNode := ⟨none, .file, 4, 1, some [97], some Vfs.root, []⟩
  let fs := (fs.mapFile 1 node 0 (-1)).2
  let fs := (fs.mapFile 1 node 0 (-1)).2
  let fs := (fs.mapFile 2 node 0 (-1)).2
  (fs.mapFile 2 node 0 (-1)).2

theorem run_twoProcesses : Run Step (initial emptyRamdisk)
    [.fsCreateNode Vfs.root [97] .file 1, .openNode 1 4 0, .openNode 1 4 0, .openNode 2 4 0,
      .openNode 2 4 0] twoProcesses :=
  Run.of_foldlM rfl

/-- Within process 1 the open descriptor 4 can be replaced by descriptor 3. -/
theorem clonefd_framed_iff_safe_same_process :
    twoProcesses.CloneSafe 3 1 4 1 ∧ twoProcesses.CloneFramed 3 1 4 1 := by
  have hSafe : twoProcesses.CloneSafe 3 1 4 1 := fun _ _ => by decide
  exact ⟨hSafe, (clonefd_framed_iff_safe run_twoProcesses 3 1 4 1).mpr hSafe⟩

/-- Cloning descriptor 3 of process 1 onto the open descriptor 4 of process 2
takes descriptor 4 away from process 1. -/
theorem clonefd_closes_in_source_process :
    ∃ operations, Run Step (initial emptyRamdisk) operations twoProcesses ∧
      ∃ next, twoProcesses.clonefd 3 1 4 2 = some (4, .successful, next) ∧
        twoProcesses.descriptors.descriptor 1 4 = some ⟨4, 0, 4, 0⟩ ∧
        next.descriptors.descriptor 1 4 = none :=
  ⟨_, run_twoProcesses, _, rfl, rfl, rfl⟩

/-- In every run the search for a delegate goes from each node up to older nodes, so it ends, and
the children of a node have it as their parent. -/
theorem delegates_inherited {ramdisk : Ramdisk} {operations : List Operation} {fs : FileSystem}
    (run : Run Step (initial ramdisk) operations fs) {id : Nat} {node : FsNode}
    (hNode : fs.vfs.nodes.get id = some node) :
    fs.vfs.getDelegate id = node.delegate.or (node.parent.bind fs.vfs.getDelegate) ∧
      (∀ parent, node.parent = some parent → parent < id ∧ (fs.vfs.nodes.get parent).isSome) ∧
      ∀ child ∈ node.children, fs.vfs.parentOf child = some id := by
  have h := (run_valid run).vfs
  refine ⟨h.getDelegate_eq hNode, h.parent id node hNode, fun child hMem => ?_⟩
  obtain ⟨content, hContent, hParent⟩ := h.child id node hNode child hMem
  rw [Vfs.parentOf, hContent, Option.bind_some, hParent]

theorem delegates_inherited_twoProcesses :
    twoProcesses.vfs.getDelegate 4 = twoProcesses.vfs.getDelegate Vfs.root :=
  (@delegates_inherited _ _ _ run_twoProcesses 4 _ rfl).1

end Kernel.FileSystem
