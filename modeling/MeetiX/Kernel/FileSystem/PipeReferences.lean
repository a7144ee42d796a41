import MeetiX.Kernel.FileSystem.DescriptorNumbers
import MeetiX.Kernel.FileSystem.PipeHistory

/-! The references of the pipes. A pipe lists a process once for every descriptor that refers to
it and goes with its last reference. Different functions change the list and the tables; what a
call does to both is said by what its descriptor holds. -/
namespace Kernel

open HashMap List Option Pipes

namespace Pipes

def references (store : Pipes) (id : PipeID) : List Pid :=
  ((store.pipes.get id).map Pipe.references).getD []

/-- The pipes after a process opened a descriptor that holds a pipe or none. -/
def retain (store : Pipes) (pid : Pid) : Option PipeID → Pipes
  | none => store
  | some id => addReference store id pid

/-- The pipes after a process closed such a descriptor. -/
def release (store : Pipes) (pid : Pid) : Option PipeID → Pipes
  | none => store
  | some id => removeReference store id pid

section References

variable {store : Pipes} {id : PipeID} {pid : Pid}

theorem references_addReference (hSome : (store.pipes.get id).isSome) (other : PipeID) :
    references (addReference store id pid) other =
      if id = other then pid :: references store other else references store other := by
  obtain ⟨pipe, hPipe⟩ := isSome_iff_exists.mp hSome
  rw [addReference, hPipe]
  by_cases hOther : id = other
  · subst hOther
    simp [references, hPipe]
  · simp [references, setPipe, get_assign, hOther]

theorem references_removeReference (other : PipeID) :
    references (removeReference store id pid) other =
      if id = other then (references store other).erase pid else references store other := by
  rw [removeReference]
  cases hPipe : store.pipes.get id with
  | none =>
    dsimp only
    split
    · rename_i hOther
      simp [references, ← hOther, hPipe]
    · rfl
  | some pipe =>
    by_cases hOther : id = other
    · subst hOther
      by_cases hLast : pipe.references.erase pid = []
      · simp [references, hPipe, hLast]
      · simp [references, hPipe, hLast]
    · dsimp only
      split
      · simp [references, get_erase, hOther]
      · simp [references, setPipe, get_assign, hOther]

def Referenced (store : Pipes) : Prop :=
  ∀ id, (store.pipes.get id).isSome → references store id ≠ []

theorem isSome_of_references (h : references store id ≠ []) : (store.pipes.get id).isSome := by
  cases hGet : store.pipes.get id with
  | none =>
    rw [references, hGet] at h
    exact absurd rfl h
  | some pipe => rfl

variable {held : Option PipeID}

theorem count_retain (hHeld : ∀ id, held = some id → (store.pipes.get id).isSome) (id : PipeID)
    (other : Pid) : (references (retain store pid held) id).count other =
      (references store id).count other + if held = some id ∧ pid = other then 1 else 0 := by
  cases held with
  | none => simp [retain]
  | some own =>
    rw [retain, references_addReference (hHeld own rfl)]
    by_cases hOwn : own = id
    · simp [hOwn, count_cons]
    · simp [hOwn]

theorem count_release (hHeld : ∀ id, held = some id → pid ∈ references store id) (id : PipeID)
    (other : Pid) : (references store id).count other =
      (references (release store pid held) id).count other +
        if held = some id ∧ pid = other then 1 else 0 := by
  cases held with
  | none => simp [release]
  | some own =>
    rw [release, references_removeReference]
    by_cases hOwn : own = id
    · subst hOwn
      have hPerm := (perm_cons_erase (hHeld own rfl)).count_eq other
      rw [count_cons] at hPerm
      simpa using hPerm
    · simp [hOwn]

/-- The new reference may be the first one of its pipe. -/
theorem Referenced.retain (h : ∀ id, held ≠ some id → (store.pipes.get id).isSome →
    references store id ≠ []) : Referenced (store.retain pid held) := by
  intro id hSome
  cases held with
  | none => exact h id nofun hSome
  | some own =>
    obtain ⟨found, hFound⟩ := isSome_iff_exists.mp hSome
    obtain ⟨old, hOld, -⟩ := sameQueues_addReference id found hFound
    have hBefore := isSome_of_eq_some hOld
    by_cases hOwn : own = id
    · subst hOwn
      rw [retain, references_addReference hBefore, if_pos rfl]
      exact cons_ne_nil _ _
    · have hKept := h id (fun hEq => hOwn (some.inj hEq)) hBefore
      rw [retain, addReference]
      split
      · exact hKept
      · simpa [references, setPipe, get_assign, hOwn] using hKept

theorem Referenced.release (h : Referenced store) : Referenced (store.release pid held) := by
  intro id hSome
  cases held with
  | none => exact h id hSome
  | some own =>
    obtain ⟨found, hFound⟩ := isSome_iff_exists.mp hSome
    obtain ⟨old, hOld, -⟩ := sameQueues_removeReference id found hFound
    rw [release, references_removeReference]
    split
    · -- A pipe goes with its last reference.
      rename_i hOwn
      subst hOwn
      intro hLast
      simp [references, hOld] at hLast
      simp [release, removeReference, hOld, hLast] at hSome
    · exact h id (isSome_of_eq_some hOld)

@[simp] theorem pipeNextID_retain : (retain store pid held).pipeNextID = store.pipeNextID := by
  cases held with
  | none => rfl
  | some own =>
    rw [retain, addReference]
    split <;> rfl

@[simp] theorem pipeNextID_release : (release store pid held).pipeNextID = store.pipeNextID := by
  cases held with
  | none => rfl
  | some own =>
    rw [release, removeReference]
    split
    · rfl
    · dsimp only
      split <;> rfl

end References

end Pipes

namespace FileDescriptors

def openFds (store : FileDescriptors) (pid : Pid) : List Fd :=
  ((store.processDescriptorTableMap.get pid).map fun table => table.descriptors.keys).getD []

theorem nodup_openFds (store : FileDescriptors) (pid : Pid) : (store.openFds pid).Nodup := by
  rw [openFds]
  cases store.processDescriptorTableMap.get pid with
  | none => exact nodup_nil
  | some table => exact table.descriptors.nodup_keys

theorem mem_openFds {store : FileDescriptors} {pid : Pid} {fd : Fd} :
    fd ∈ store.openFds pid ↔ store.pointer pid fd ≠ none := by
  rw [openFds, pointer]
  cases store.processDescriptorTableMap.get pid with
  | none => simp
  | some table => exact mem_keys

end FileDescriptors

/-- What a descriptor holds that is open on the node: a file, which is not
counted, or a pipe. -/
def FsNode.held (node : FsNode) : Option (Option Pipes.PipeID) :=
  match node.type with
  | .file => some none
  | .pipe => some (some (FileSystem.toPipeID node.physFsID))
  | _ => none

theorem FsNode.openable_of_held {node : FsNode} {held : Option Pipes.PipeID}
    (h : node.held = some held) : node.openable := by
  rw [FsNode.held] at h
  split at h
  · simp_all [openable]
  · simp_all [openable]
  · cases h

namespace FileSystem

open Base FileDescriptors

variable (fs : FileSystem)

def holds (pid : Pid) (fd : Fd) : Option (Option Pipes.PipeID) :=
  (fs.nodeOf pid fd).bind FsNode.held

def descriptorCount (pid : Pid) (id : Pipes.PipeID) : Nat :=
  (fs.descriptors.openFds pid).countP fun fd => fs.holds pid fd = some (some id)

/-- Every open descriptor has a node that can be opened. -/
structure Known : Prop where
  valid : fs.Valid
  known : ∀ pid fd, fs.descriptors.descriptor pid fd ≠ none → fs.holds pid fd ≠ none

/-- The lists of the pipes agree with the tables of the processes. -/
structure Counted : Prop extends Known fs where
  counted : ∀ id pid, (fs.pipes.references id).count pid = fs.descriptorCount pid id
  low : -2 ^ 31 ≤ fs.pipes.pipeNextID
  high : fs.pipes.pipeNextID < 2 ^ 31

/-- And a pipe is gone when its list is empty. -/
structure Balanced : Prop extends Counted fs where
  referenced : Pipes.Referenced fs.pipes

section Count

variable {fs next : FileSystem}
variable {pid : Pid} {fd : Fd} {held : Option Pipes.PipeID} {id : Pipes.PipeID}

theorem pointer_of_holds (h : fs.holds pid fd ≠ none) : fs.descriptors.pointer pid fd ≠ none := by
  intro hNone
  rw [holds, nodeOf, descriptor, hNone] at h
  exact h rfl

theorem setOf_holds (fs : FileSystem) (pid : Pid) (id : Pipes.PipeID) :
    {fd | fs.holds pid fd = some (some id)} = ((fs.descriptors.openFds pid).filter fun fd =>
      decide (fs.holds pid fd = some (some id))).toFinset := by
  ext fd
  simp only [Set.mem_ofPred_eq, coe_toFinset, mem_filter, decide_eq_true_eq]
  refine ⟨fun hHolds => ⟨mem_openFds.mpr (pointer_of_holds ?_), hHolds⟩, And.right⟩
  rw [hHolds]
  exact some_ne_none _

theorem descriptorCount_eq (fs : FileSystem) (pid : Pid) (id : Pipes.PipeID) :
    fs.descriptorCount pid id = {fd | fs.holds pid fd = some (some id)}.ncard := by
  rw [setOf_holds, Set.ncard_coe_finset,
    toFinset_card_of_nodup ((nodup_openFds fs.descriptors pid).filter _), descriptorCount,
    countP_eq_length_filter]

theorem finite_holds (fs : FileSystem) (pid : Pid) (id : Pipes.PipeID) :
    {fd | fs.holds pid fd = some (some id)}.Finite := by
  rw [setOf_holds]
  exact Finset.finite_toSet _

theorem Counted.mem_references (h : Counted fs)
    (hHolds : fs.holds pid fd = some (some id)) : pid ∈ fs.pipes.references id := by
  rw [← count_pos_iff, h.counted, descriptorCount_eq, Set.ncard_pos (fs.finite_holds pid id)]
  exact ⟨fd, hHolds⟩

theorem Counted.isSome_of_holds (h : Counted fs)
    (hHolds : fs.holds pid fd = some (some id)) : (fs.pipes.pipes.get id).isSome :=
  isSome_of_references (ne_nil_of_mem (h.mem_references hHolds))

theorem descriptorCount_of_opened (hUnused : fs.holds pid fd = none)
    (hHolds : ∀ p f, next.holds p f = if pid = p ∧ fd = f then some held else fs.holds p f)
    (p : Pid) (id : Pipes.PipeID) : next.descriptorCount p id =
      fs.descriptorCount p id + if held = some id ∧ pid = p then 1 else 0 := by
  rw [descriptorCount_eq, descriptorCount_eq]
  split
  · rename_i hBoth
    obtain ⟨rfl, rfl⟩ := hBoth
    have hNew : fd ∉ {f | fs.holds pid f = some (some id)} := by simp [hUnused]
    rw [← Set.ncard_insert_of_notMem hNew (fs.finite_holds pid id)]
    congr 1
    ext f
    by_cases hFd : fd = f
    · simp [hHolds, hFd]
    · simp [hHolds, hFd, Ne.symm hFd]
  · rename_i hOther
    congr 1
    ext f
    rw [Set.mem_ofPred_eq, Set.mem_ofPred_eq, hHolds]
    split
    · rename_i hBoth
      obtain ⟨rfl, rfl⟩ := hBoth
      simpa [hUnused] using hOther
    · rfl

theorem Counted.opened (h : Counted fs) (hNext : Known next) (hUnused : fs.holds pid fd = none)
    (hHolds : ∀ p f, next.holds p f = if pid = p ∧ fd = f then some held else fs.holds p f)
    (hExists : ∀ id, held = some id → (fs.pipes.pipes.get id).isSome)
    (hReferenced : ∀ id, held ≠ some id → (fs.pipes.pipes.get id).isSome →
      fs.pipes.references id ≠ [])
    (hPipes : next.pipes = fs.pipes.retain pid held) : Balanced next where
  toKnown := hNext
  counted id p := by
    rw [hPipes, count_retain hExists, h.counted,
      descriptorCount_of_opened hUnused hHolds]
  low := by simpa [hPipes] using h.low
  high := by simpa [hPipes] using h.high
  referenced := hPipes ▸ Pipes.Referenced.retain hReferenced

/-- A closed descriptor gives back the reference of what it held. -/
theorem Balanced.closed (h : Balanced fs) (hNext : Known next) (hHeld : fs.holds pid fd = some held)
    (hHolds : ∀ p f, next.holds p f = if pid = p ∧ fd = f then none else fs.holds p f)
    (hPipes : next.pipes = fs.pipes.release pid held) : Balanced next where
  toKnown := hNext
  counted id p := by
    have hUnused : next.holds pid fd = none := by rw [hHolds, if_pos ⟨rfl, rfl⟩]
    have hBack : ∀ p f, fs.holds p f = if pid = p ∧ fd = f then some held else next.holds p f := by
      intro p f
      rw [hHolds]
      split
      · rename_i hBoth
        rw [← hBoth.1, ← hBoth.2, hHeld]
      · rfl
    have hListed : ∀ id, held = some id → pid ∈ fs.pipes.references id := fun id hId =>
      h.mem_references (hHeld.trans (congrArg some hId))
    have hLists := count_release hListed id p
    have hTables := descriptorCount_of_opened hUnused hBack p id
    rw [h.counted] at hLists
    rw [hPipes]
    omega
  low := by simpa [hPipes] using h.low
  high := by simpa [hPipes] using h.high
  referenced := hPipes ▸ h.referenced.release

theorem Balanced.same (h : Balanced fs) (hNext : Known next)
    (hHolds : ∀ p f, next.holds p f = fs.holds p f) (hPipes : next.pipes = fs.pipes) :
    Balanced next where
  toKnown := hNext
  counted id pid := by
    simp only [hPipes, h.counted, descriptorCount_eq, hHolds]
  low := hPipes ▸ h.low
  high := hPipes ▸ h.high
  referenced := hPipes ▸ h.referenced

/-- The nodes may get children, but what a descriptor holds is settled by the
node it was opened with. -/
theorem Known.of_holds (h : Known fs) (hValid : next.Valid)
    (hOpen : ∀ p f, next.descriptors.descriptor p f ≠ none → fs.descriptors.descriptor p f ≠ none)
    (hHolds : ∀ p f, next.holds p f = fs.holds p f) : Known next where
  valid := hValid
  known p f hDescriptor := by
    rw [hHolds]
    exact h.known p f (hOpen p f hDescriptor)

theorem Balanced.touch (h : Balanced fs) (pid : Pid) : Balanced (fs.touch pid) := by
  have hHolds : ∀ p f, (fs.touch pid).holds p f = fs.holds p f := fun p f => by
    rw [holds, holds, touch_nodeOf]
  refine h.same (h.toKnown.of_holds (h.valid.touch pid) (fun p f hOpen => ?_) hHolds) hHolds rfl
  rwa [touch_descriptor] at hOpen

end Count

section Calls

variable {fs next : FileSystem}
variable {pid sourcePid targetPid : Pid} {fd targetFd r sourceFd : Fd} {node : FsNode}
  {held : Option Pipes.PipeID} {address source parent buffer : Nat} {closed : Bool}
  {status : FsClonefdStatus}

theorem Known.exists_held (h : Known fs) (hNode : fs.nodeOf pid fd = some node) :
    ∃ held, node.held = some held ∧ fs.holds pid fd = some held := by
  have hHolds : fs.holds pid fd = node.held := by rw [holds, hNode, bind_some]
  have hOpen : fs.holds pid fd ≠ none := by
    apply h.known
    intro hNone
    rw [nodeOf, hNone] at hNode
    cases hNode
  obtain ⟨held, hHeld⟩ := ne_none_iff_exists'.mp hOpen
  exact ⟨held, hHolds.symm.trans hHeld, hHeld⟩

theorem Known.closes_of_open (h : Known fs) (hFd : fd ≠ -1)
    (hOpen : fs.descriptors.descriptor pid fd ≠ none) : fs.closes fd pid := by
  have hHolds := h.known pid fd hOpen
  rw [holds] at hHolds
  cases hNode : fs.nodeOf pid fd with
  | none =>
    rw [hNode] at hHolds
    exact absurd rfl hHolds
  | some node =>
    obtain ⟨held, hHeld, -⟩ := h.exists_held hNode
    simp [closes, hFd, hNode, FsNode.openable_of_held hHeld]

/-- One entry of a table is new or gone. A new one refers to a node that can be opened. -/
theorem Known.changed (h : Known fs) (hValid : next.Valid) (hVfs : next.vfs = fs.vfs)
    {entry : Option FileDescriptorContent} {held : Option (Option Pipes.PipeID)}
    (hDescriptors : ∀ p f, next.descriptors.descriptor p f =
      if pid = p ∧ fd = f then entry else fs.descriptors.descriptor p f)
    (hHeld : (entry.bind fun content => fs.vfs.getNodeById content.nodeID).bind FsNode.held = held)
    (hOpen : entry ≠ none → held ≠ none) :
    Known next ∧ ∀ p f, next.holds p f = if pid = p ∧ fd = f then held else fs.holds p f := by
  have hHolds : ∀ p f, next.holds p f = if pid = p ∧ fd = f then held else fs.holds p f := by
    intro p f
    rw [holds, nodeOf, hDescriptors, hVfs]
    split
    · exact hHeld
    · rfl
  refine ⟨⟨hValid, fun p f hNext => ?_⟩, hHolds⟩
  rw [hDescriptors] at hNext
  rw [hHolds]
  split at hNext
  · rename_i hBoth
    rw [if_pos hBoth]
    exact hOpen hNext
  · rename_i hOther
    rw [if_neg hOther]
    exact h.known p f hNext

theorem Balanced.of_descriptor (h : Balanced fs) (hValid : next.Valid) (hVfs : next.vfs = fs.vfs)
    (hPipes : next.pipes = fs.pipes)
    (hDescriptors : ∀ p f, (next.descriptors.descriptor p f).map FileDescriptorContent.nodeID =
      (fs.descriptors.descriptor p f).map FileDescriptorContent.nodeID) : Balanced next := by
  have hHolds : ∀ p f, next.holds p f = fs.holds p f := by
    intro p f
    have hNode : ∀ s : FileSystem, s.holds p f =
        ((s.descriptors.descriptor p f).map FileDescriptorContent.nodeID).bind fun id =>
          (s.vfs.getNodeById id).bind FsNode.held := by
      intro s
      rw [holds, nodeOf]
      cases s.descriptors.descriptor p f <;> rfl
    rw [hNode, hNode, hDescriptors, hVfs]
  refine h.same (h.toKnown.of_holds hValid (fun p f hOpen hNone => hOpen ?_) hHolds) hHolds hPipes
  have hBoth := hDescriptors p f
  rw [hNone] at hBoth
  exact map_eq_none_iff.mp hBoth

theorem mapFile_pipes (hHeld : node.held = some held) (pid : Pid) (openFlags : Int) (fd : Fd) :
    (fs.mapFile pid node openFlags fd).2.pipes = fs.pipes.retain pid held := by
  rw [FsNode.held] at hHeld
  split at hHeld
  all_goals cases hHeld
  all_goals
    rename_i hType
    simp only [mapFile, hType, retain]

theorem unmapFile_pipes (hHeld : node.held = some held)
    (hUnmap : fs.unmapFile pid node address = some (closed, next)) :
    next.pipes = fs.pipes.release pid held := by
  rw [unmapFile] at hUnmap
  split at hUnmap
  · cases hUnmap
  · rw [FsNode.held] at hHeld
    split at hHeld
    all_goals cases hHeld
    all_goals
      rename_i hType
      simp only [hType] at hUnmap
      obtain ⟨descriptors, -, hPair⟩ := map_eq_some_iff.mp hUnmap
      cases hPair
      rfl

theorem Counted.mapFile (h : Counted fs)
    (hNode : fs.vfs.getNodeById node.id = some node) (hHeld : node.held = some held)
    {openFlags : Int}
    (hUnused : fs.descriptors.descriptor pid (fs.descriptors.map pid node.id fd openFlags).1 = none)
    (hExists : ∀ id, held = some id → (fs.pipes.pipes.get id).isSome)
    (hReferenced : ∀ id, held ≠ some id → (fs.pipes.pipes.get id).isSome →
      fs.pipes.references id ≠ []) : Balanced (fs.mapFile pid node openFlags fd).2 := by
  obtain ⟨-, hDescriptors, hVfs⟩ :=
    @mapFile_of_openable fs node (FsNode.openable_of_held hHeld) pid openFlags fd
  have hMap := descriptor_map h.valid.descriptors pid node.id fd openFlags
  rw [← hDescriptors] at hMap
  have hRegistered : (fs.vfs.getNodeById node.id).bind FsNode.held = some held := by
    rw [hNode]
    exact hHeld
  obtain ⟨hKnown, hHolds⟩ :=
    h.toKnown.changed (h.valid.mapFile node pid openFlags fd) hVfs hMap hRegistered nofun
  refine h.opened hKnown ?_ hHolds hExists hReferenced (mapFile_pipes hHeld pid openFlags fd)
  rw [holds, nodeOf, hUnused]
  rfl

section

variable (h : Balanced fs) (hNode : fs.nodeOf pid fd = some node)
  (hPointer : fs.descriptors.pointer pid fd = some address)

include h hNode hPointer

theorem Balanced.unmapFile (hUnmap : fs.unmapFile pid node address = some (closed, next)) :
    Balanced next ∧ ∀ p f, next.descriptors.pointer p f =
      if pid = p ∧ fd = f then none else fs.descriptors.pointer p f := by
  obtain ⟨held, hHeld, hHolds⟩ := h.exists_held hNode
  obtain ⟨content, hContent, hId⟩ := h.valid.descriptors.live pid fd address hPointer
  obtain ⟨unmapped, hUnmapped, hVfs, hDescriptors⟩ :=
    unmapFile_of_openable h.valid (FsNode.openable_of_held hHeld) pid hContent
  rw [hUnmap] at hUnmapped
  cases hUnmapped
  rw [hId] at hDescriptors
  obtain ⟨descriptors, hSome, hValid, -, hPointers, -⟩ := unmap_spec h.valid.descriptors pid fd
  obtain rfl : descriptors = next.descriptors := some.inj (hSome.symm.trans hDescriptors)
  obtain ⟨hKnown, hClosed⟩ := h.toKnown.changed (h.valid.of_descriptors hVfs hValid) hVfs
    (descriptor_of_unmap h.valid.descriptors hDescriptors) rfl fun hNone => absurd rfl hNone
  exact ⟨h.closed hKnown hHolds hClosed (unmapFile_pipes hHeld hUnmap), hPointers⟩

theorem Balanced.unmapFound
    (hUnmap : (fs.touch pid).unmapFile pid node address = some (closed, next)) : Balanced next := by
  rw [← touch_nodeOf pid] at hNode
  rw [← touch_pointer pid] at hPointer
  exact ((h.touch pid).unmapFile hNode hPointer hUnmap).1

end

theorem Balanced.closeTarget (h : Balanced fs)
    (hOwn : fs.closes targetFd targetPid → sourcePid = targetPid)
    (hClose : fs.closeTarget sourcePid targetFd targetPid = some next) : Balanced next := by
  rw [FileSystem.closeTarget] at hClose
  split at hClose
  · cases hClose
    exact h
  · rename_i hFd
    cases hNode : fs.nodeOf targetPid targetFd with
    | none =>
      rw [nodeForDescriptor_eq_none h.valid hNode] at hClose
      cases hClose
      exact h.touch targetPid
    | some node =>
      obtain ⟨held, hHeld, -⟩ := h.exists_held hNode
      obtain ⟨address, content, hPointer, -, -, -, hFound⟩ := nodeForDescriptor_eq_some h.valid hNode
      have hCloses : fs.closes targetFd targetPid := by
        simp [closes, hFd, hNode, FsNode.openable_of_held hHeld]
      rw [hFound] at hClose
      obtain ⟨⟨closed, unmapped⟩, hUnmap, rfl⟩ := map_eq_some_iff.mp hClose
      rw [hOwn hCloses] at hUnmap
      exact h.unmapFound hNode hPointer hUnmap

theorem cloneInto_pipes {target : Nat} (hClone : fs.cloneInto source target = some next) :
    next.pipes = fs.pipes := by
  rw [cloneInto] at hClone
  split at hClone
  · cases hClone
  · obtain ⟨descriptors, -, rfl⟩ := map_eq_some_iff.mp hClone
    rfl

theorem openClone_pipes
    (hOpen : fs.openClone node source targetFd targetPid = some (r, status, next)) :
    next.pipes = (fs.mapFile targetPid node 0 targetFd).2.pipes := by
  rcases openClone_cases hOpen with rfl | rfl | ⟨target, hClone⟩
  · rfl
  · rfl
  · exact (cloneInto_pipes hClone).trans rfl

/-- Cloning a source that is still open to a number that is not in use. -/
theorem Balanced.openClone (h : Balanced fs) (hNode : fs.nodeOf sourcePid sourceFd = some node)
    (hSource : fs.descriptors.pointer sourcePid sourceFd = some source)
    (hUnused : fs.descriptors.descriptor targetPid
      (fs.descriptors.map targetPid node.id targetFd 0).1 = none)
    (hOpen : fs.openClone node source targetFd targetPid = some (r, status, next)) : Balanced next := by
  obtain ⟨held, hHeld, hHolds⟩ := h.exists_held hNode
  obtain ⟨address, content, hPointer, hContent, -, hGet, -⟩ := nodeForDescriptor_eq_some h.valid hNode
  obtain rfl : source = address := some.inj (hSource.symm.trans hPointer)
  have hExists : ∀ id, held = some id → (fs.pipes.pipes.get id).isSome := fun id hId =>
    h.isSome_of_holds (hHolds.trans (congrArg some hId))
  have hReferenced : ∀ id, held ≠ some id → (fs.pipes.pipes.get id).isSome →
      fs.pipes.references id ≠ [] := fun id _ => h.referenced id
  have hOpenable := FsNode.openable_of_held hHeld
  by_cases hReal : (fs.descriptors.map targetPid node.id targetFd 0).1 = -1
  · have hFd := (@mapFile_of_openable fs node hOpenable targetPid 0 targetFd).1
    rw [FileSystem.openClone] at hOpen
    dsimp only at hOpen
    rw [hFd, if_pos hReal] at hOpen
    cases hOpen
    exact h.toCounted.mapFile (nodeOf_id h.valid hNode) hHeld hUnused hExists hReferenced
  · obtain ⟨cloned, hCloned, hValid, hVfs, hDescriptors⟩ :=
      openClone_of_live h.valid hOpenable (nodeOf_id h.valid hNode) hContent rfl hReal
    have hPipes := openClone_pipes hOpen
    rw [mapFile_pipes hHeld] at hPipes
    rw [hCloned] at hOpen
    cases hOpen
    have hCopied : (fs.vfs.getNodeById content.nodeID).bind FsNode.held = some held := by
      rw [hGet]
      exact hHeld
    obtain ⟨hKnown, hNewHolds⟩ := h.toKnown.changed hValid hVfs hDescriptors hCopied
      fun _ => some_ne_none _
    refine h.toCounted.opened hKnown ?_ hNewHolds hExists hReferenced hPipes
    rw [holds, nodeOf, hUnused]
    rfl

/-- A clone that closes a target does so in the process of the source, and the
target is not the source; a clone without a given number gets an unused one. -/
structure CloneCounted (fs : FileSystem) (sourceFd : Fd) (sourcePid : Pid) (targetFd : Fd)
    (targetPid : Pid) : Prop where
  own : fs.closes targetFd targetPid → sourcePid = targetPid ∧ sourceFd ≠ targetFd
  unused : targetFd = -1 →
    fs.descriptors.pointer targetPid (fs.descriptors.nextFileDescriptor targetPid) = none

/-- A cloned descriptor of a pipe is one more reference to it. -/
theorem Balanced.clonefd (h : Balanced fs)
    (hSafe : CloneCounted fs sourceFd sourcePid targetFd targetPid)
    (hClone : fs.clonefd sourceFd sourcePid targetFd targetPid = some (r, status, next)) :
    Balanced next := by
  cases hNode : fs.nodeOf sourcePid sourceFd with
  | none =>
    rw [FileSystem.clonefd, nodeForDescriptor_eq_none h.valid hNode] at hClone
    cases hClone
    exact h.touch sourcePid
  | some node =>
    obtain ⟨source, content, closed, hPointer, hContent, hId, hClosed, hEq⟩ :=
      clonefd_eq h.valid hNode targetFd targetPid
    rw [hEq] at hClone
    have hTouched := h.touch sourcePid
    have hBalanced : Balanced closed := by
      refine hTouched.closeTarget (fun hCloses => ?_) hClosed
      rw [touch_closes] at hCloses
      exact (hSafe.own hCloses).1
    obtain ⟨closed', hClosed', -, hVfs, -, hPointers, -⟩ :=
      closeTarget_spec hTouched.valid sourcePid targetFd targetPid
    obtain rfl : closed' = closed := some.inj (hClosed'.symm.trans hClosed)
    have hDescriptors := descriptor_of_closeTarget hTouched.valid hClosed
    simp only [touch_closes, touch_descriptor, touch_pointer] at hDescriptors hPointers
    -- The source is none of the descriptors that were closed.
    have hOther : ¬(fs.closes targetFd targetPid ∧ sourcePid = sourcePid ∧ targetFd = sourceFd) :=
      fun hTaken => (hSafe.own hTaken.1).2 hTaken.2.2.symm
    have hLeft : closed'.nodeOf sourcePid sourceFd = some node := by
      rw [nodeOf, hDescriptors, if_neg hOther, hVfs]
      exact hNode
    have hKept : closed'.descriptors.pointer sourcePid sourceFd = some source := by
      rw [hPointers, if_neg hOther]
      exact hPointer
    refine hBalanced.openClone hLeft hKept ?_ hClone
    rw [map_fst]
    split
    · rename_i hAuto
      rw [hBalanced.valid.descriptors.descriptor_eq_none_iff, hPointers]
      split
      · rfl
      · have hCounter := (touch_shrinks fs sourcePid).trans
          (closeTarget_shrinks hTouched.valid hClosed)
        rw [hCounter.counter]
        exact hSafe.unused hAuto
    · rename_i hFd
      rw [hDescriptors]
      by_cases hCloses : fs.closes targetFd targetPid
      · rw [if_pos ⟨hCloses, (hSafe.own hCloses).1, rfl⟩]
      · rw [if_neg fun hTaken => hCloses hTaken.1]
        by_contra hUsed
        exact hCloses (h.closes_of_open hFd hUsed)

theorem Balanced.close (h : Balanced fs)
    (hClose : fs.execute (.close pid fd) = some next) : Balanced next := by
  rw [execute] at hClose
  cases hNode : fs.nodeOf pid fd with
  | none =>
    rw [nodeForDescriptor_eq_none h.valid hNode] at hClose
    cases hClose
    exact h.touch pid
  | some node =>
    obtain ⟨address, content, hPointer, -, -, -, hFound⟩ := nodeForDescriptor_eq_some h.valid hNode
    rw [hFound] at hClose
    obtain ⟨⟨closed, unmapped⟩, hUnmap, rfl⟩ := map_eq_some_iff.mp hClose
    exact h.unmapFound hNode hPointer hUnmap

theorem Balanced.move (h : Balanced fs) {offset : Int} {descriptors : FileDescriptors}
    (hModify : fs.descriptors.modifyContent address (fun content => { content with offset := offset }) =
      some descriptors) : Balanced { fs with descriptors := descriptors } := by
  have hId : ∀ content : FileDescriptorContent,
      { content with offset := offset }.id = content.id := fun _ => rfl
  refine h.of_descriptor (h.valid.modifyContent hId hModify) rfl rfl fun p f => ?_
  rw [modifyContent] at hModify
  split at hModify
  · cases hModify
  · rename_i content hContent
    cases hModify
    dsimp only [descriptor, pointer]
    cases (fs.descriptors.processDescriptorTableMap.get p).bind fun table => table.descriptors.get f with
    | none => rfl
    | some other =>
      by_cases hOther : other = address
      · subst hOther
        simp [hContent]
      · simp [hOther]

theorem Known.holds_insert (h : Known fs) (hParent : (fs.vfs.nodes.get parent).isSome)
    (delegate : Option FsDelegate) (type : FsNodeType) (physFsID : Nat) (name : Option CString)
    (pid : Pid) (fd : Fd) :
    { fs with vfs := (fs.vfs.insert parent delegate type physFsID name).2 }.holds pid fd =
      fs.holds pid fd := by
  cases hContent : fs.descriptors.descriptor pid fd with
  | none => simp [holds, nodeOf, hContent]
  | some content =>
    have hOpen := h.known pid fd (by rw [hContent]; exact some_ne_none _)
    simp only [holds, nodeOf, hContent, bind_some, Vfs.getNodeById] at hOpen ⊢
    rw [Vfs.get_insert h.valid.vfs hParent]
    split
    · rename_i hNew
      rw [hNew, h.valid.vfs.get_nodeNextID] at hOpen
      exact absurd rfl hOpen
    · split
      · rw [bind_map]
        rfl
      · rfl

theorem Known.insert (h : Known fs) (hParent : (fs.vfs.nodes.get parent).isSome)
    (delegate : Option FsDelegate) (type : FsNodeType) (physFsID : Nat) (name : Option CString) :
    Known { fs with vfs := (fs.vfs.insert parent delegate type physFsID name).2 } :=
  h.of_holds (h.valid.insert hParent delegate type physFsID name) (fun _ _ hOpen => hOpen)
    (h.holds_insert hParent delegate type physFsID name)

theorem Balanced.insert (h : Balanced fs) (hParent : (fs.vfs.nodes.get parent).isSome)
    (delegate : Option FsDelegate) (type : FsNodeType) (physFsID : Nat) (name : Option CString) :
    Balanced { fs with vfs := (fs.vfs.insert parent delegate type physFsID name).2 } :=
  h.same (h.toKnown.insert hParent delegate type physFsID name)
    (h.holds_insert hParent delegate type physFsID name) rfl

/-- The identifier of a pipe fits into 32 bits, so the node gives it back. -/
theorem toPipeID_of_range {id : Pipes.PipeID} (hLow : -2 ^ 31 ≤ id) (hHigh : id < 2 ^ 31) :
    toPipeID (id % (2 ^ 64 : Nat)).toNat = id := by
  unfold toPipeID toInt32 wordSize
  by_cases hSign : 0 ≤ id
  · lia
  · lia

/-- What the new pipe and the two numbers of its descriptors displace: nothing. -/
structure PipeUnused (fs : FileSystem) (pid : Pid) (buffer : Nat) : Prop where
  allocated : buffer ≠ 0
  id : fs.pipes.pipes.get fs.pipes.pipeNextID = none
  write : fs.descriptors.pointer pid (fs.descriptors.nextFileDescriptor pid) = none
  read : fs.descriptors.pointer pid
    (Int.bmod (fs.descriptors.nextFileDescriptor pid + 1) wordSize) = none

/-- The state in the middle of `pipe`, with the new pipe and its node. -/
def withPipe (fs : FileSystem) (buffer : Nat) (bytes : Nat → UInt8) : FileSystem :=
  { fs with
    vfs := (fs.vfs.insert Vfs.pipeRoot none .pipe (fs.pipes.pipeNextID % (2 ^ 64 : Nat)).toNat none).2
    pipes := (fs.pipes.create buffer bytes).2 }

def pipeNode (fs : FileSystem) : FsNode :=
  ⟨none, .pipe, fs.vfs.nodeNextID, (fs.pipes.pipeNextID % (2 ^ 64 : Nat)).toNat, none,
    some Vfs.pipeRoot, []⟩

theorem pipe_eq (hBuffer : buffer ≠ 0) (bytes : Nat → UInt8) : (fs.pipe pid buffer bytes).2.2 =
      ((((fs.withPipe buffer bytes).mapFile pid fs.pipeNode 0 (-1)).2.mapFile pid fs.pipeNode 0
        (-1)).2) := by
  rw [pipe, create, withPipe, create, if_pos hBuffer]
  rfl

theorem references_withPipe (hBuffer : buffer ≠ 0) (bytes : Nat → UInt8)
    (hFree : fs.pipes.pipes.get fs.pipes.pipeNextID = none) (id : Pipes.PipeID) :
    references (fs.withPipe buffer bytes).pipes id = fs.pipes.references id := by
  rw [withPipe, create, if_pos hBuffer, references, references]
  rw [get_add]
  split
  · rename_i hNew
    rw [← hNew, hFree]
    rfl
  · rfl

theorem Balanced.withPipe (h : Balanced fs) (hBuffer : buffer ≠ 0)
    (bytes : Nat → UInt8) (hFree : fs.pipes.pipes.get fs.pipes.pipeNextID = none) :
    Counted (fs.withPipe buffer bytes) := by
  have hNode := h.toKnown.insert h.valid.pipeRoot none .pipe
    (fs.pipes.pipeNextID % (2 ^ 64 : Nat)).toNat none
  have hHolds := h.toKnown.holds_insert h.valid.pipeRoot none .pipe
    (fs.pipes.pipeNextID % (2 ^ 64 : Nat)).toNat none
  have hKnown : Known (fs.withPipe buffer bytes) :=
    ⟨hNode.valid.of_descriptors rfl hNode.valid.descriptors, hNode.known⟩
  have hNext : (fs.withPipe buffer bytes).pipes.pipeNextID =
      Int.bmod (fs.pipes.pipeNextID + 1) wordSize := by
    rw [FileSystem.withPipe, create, if_pos hBuffer]
  refine ⟨hKnown, fun id pid => ?_, ?_, ?_⟩
  · rw [references_withPipe hBuffer bytes hFree, h.counted, descriptorCount_eq, descriptorCount_eq]
    simp only [← hHolds]
    rfl
  · rw [hNext]
    exact Int.le_bmod (by decide)
  · rw [hNext]
    exact Int.bmod_lt (by decide)

/-- The two descriptors of a new pipe are its two references. -/
theorem Balanced.pipe (h : Balanced fs) (hUnused : PipeUnused fs pid buffer)
    (bytes : Nat → UInt8) : Balanced (fs.pipe pid buffer bytes).2.2 := by
  obtain ⟨hBuffer, hFree, hWrite, hRead⟩ := hUnused
  have hMiddle := h.withPipe hBuffer bytes hFree
  have hHeld : fs.pipeNode.held = some (some fs.pipes.pipeNextID) := by
    rw [FsNode.held, pipeNode, toPipeID_of_range h.low h.high]
  have hNode : (fs.withPipe buffer bytes).vfs.getNodeById fs.pipeNode.id = some fs.pipeNode := by
    rw [FileSystem.withPipe, Vfs.getNodeById, Vfs.get_insert h.valid.vfs h.valid.pipeRoot]
    exact if_pos rfl
  have hExists : ((fs.withPipe buffer bytes).pipes.pipes.get fs.pipes.pipeNextID).isSome := by
    rw [FileSystem.withPipe, create, if_pos hBuffer]
    rw [get_add_self]
    rfl
  have hReferenced : ∀ id, some fs.pipes.pipeNextID ≠ some id →
      ((fs.withPipe buffer bytes).pipes.pipes.get id).isSome →
        references (fs.withPipe buffer bytes).pipes id ≠ [] := by
    intro id hOther hSome
    rw [references_withPipe hBuffer bytes hFree]
    apply h.referenced
    rw [FileSystem.withPipe, create, if_pos hBuffer] at hSome
    rwa [get_add_of_ne _ _ fun hEq => hOther (congrArg some hEq)] at hSome
  have hFirst : Balanced ((fs.withPipe buffer bytes).mapFile pid fs.pipeNode 0 (-1)).2 := by
    refine hMiddle.mapFile hNode hHeld ?_ (fun id hId => ?_) hReferenced
    · rw [hMiddle.valid.descriptors.descriptor_eq_none_iff]
      exact hWrite
    · cases hId
      exact hExists
  have hOpenable := FsNode.openable_of_held hHeld
  obtain ⟨-, hDescriptors, hVfs⟩ :=
    @mapFile_of_openable (fs.withPipe buffer bytes) fs.pipeNode hOpenable pid 0 (-1)
  have hHolds : ((fs.withPipe buffer bytes).mapFile pid fs.pipeNode 0 (-1)).2.holds pid
      (fs.descriptors.nextFileDescriptor pid) = some (some fs.pipes.pipeNextID) := by
    have hMap := descriptor_map hMiddle.valid.descriptors pid fs.pipeNode.id (-1) 0 pid
      (fs.descriptors.nextFileDescriptor pid)
    rw [← hDescriptors, if_pos ⟨rfl, rfl⟩] at hMap
    rw [holds, nodeOf, hMap, bind_some, hVfs, hNode, bind_some, hHeld]
  rw [pipe_eq hBuffer]
  refine hFirst.toCounted.mapFile ?_ hHeld ?_ (fun id hId => ?_) fun id _ => hFirst.referenced id
  · exact hNode
  · have hNumbers : (fs.descriptors.nextFileDescriptor pid : Int) ≠
        Int.bmod (fs.descriptors.nextFileDescriptor pid + 1) wordSize := by
      intro hEq
      have hMod := congrArg (fun n : Int => n % (wordSize : Nat)) hEq
      unfold wordSize at hMod
      lia
    rw [hFirst.valid.descriptors.descriptor_eq_none_iff, hDescriptors, map_fst,
      nextFileDescriptor_map, pointer_map, if_neg fun hBoth => hNumbers hBoth.2]
    exact hRead
  · cases hId
    exact hFirst.isSome_of_holds hHolds

end Calls

section Loops

variable {fs next : FileSystem}
variable {pid source fork : Pid} {address : Nat} {rest : List Nat} {s t : FileSystem}

theorem mem_entries : address ∈ (fs.descriptors.getProcessTable pid).1.descriptors.values ↔
      ∃ fd, fs.descriptors.pointer pid fd = some address := by
  rw [mem_values]
  simp only [getProcessTable_descriptors]

theorem nodup_entries (h : fs.Valid) (pid : Pid) :
    (fs.descriptors.getProcessTable pid).1.descriptors.values.Nodup := by
  apply nodup_values
  intro first second address hFirst hSecond
  rw [getProcessTable_descriptors] at hFirst hSecond
  exact (h.descriptors.apart _ _ _ _ _ hFirst hSecond).2

/-- The state of a fork with the entries that it has still to clone. Their numbers
are all different, and the new process does not use them. -/
structure Cloning (number : Nat → Fd) (fork : Pid) (rest : List Nat) (s : FileSystem) : Prop where
  balanced : Balanced s
  old : ∀ address ∈ rest, address < s.descriptors.nextContent
  numbers : ∀ address ∈ rest, ∀ content, s.descriptors.contents address = some content →
    content.id = number address
  real : ∀ address ∈ rest, number address ≠ -1
  distinct : (rest.map number).Nodup
  free : ∀ address ∈ rest, s.descriptors.pointer fork (number address) = none

theorem closes_of_pointer {fd : Fd} (h : fs.descriptors.pointer pid fd = none) :
    ¬fs.closes fd pid := by
  simp [closes, nodeOf, descriptor, h]

theorem Cloning.cloneNext {number : Nat → Fd} (h : Cloning number fork (address :: rest) s)
    (hStep : cloneNext source fork s address = some t) : Cloning number fork rest t := by
  have hHead : address ∈ address :: rest := mem_cons_self
  have hTail : ∀ other ∈ rest, other ∈ address :: rest := fun _ => mem_cons_of_mem _
  have hDistinct := h.distinct
  rw [map_cons, nodup_cons] at hDistinct
  rw [FileSystem.cloneNext] at hStep
  split at hStep
  · cases hStep
  · rename_i content hContent
    obtain ⟨⟨r, status, cloned⟩, hClone, rfl⟩ := map_eq_some_iff.mp hStep
    rw [h.numbers address hHead content hContent] at hClone
    have hSafe : CloneCounted s (number address) source (number address) fork :=
      ⟨fun hCloses => absurd hCloses (closes_of_pointer (h.free address hHead)),
        fun hAuto => absurd hAuto (h.real address hHead)⟩
    have hBalanced := h.balanced.clonefd hSafe hClone
    have hClones := clonefd_clones h.balanced.valid hClone
    refine ⟨hBalanced, fun other hOther => ?_, fun other hOther found hFound => ?_,
      fun other hOther => h.real other (hTail other hOther), hDistinct.2, fun other hOther => ?_⟩
    · exact Nat.lt_of_lt_of_le (h.old other (hTail other hOther)) hClones.nextContent_le
    · obtain ⟨before, hBefore, hId⟩ := hClones.ids (h.old other (hTail other hOther)) hFound
      rw [← hId]
      exact h.numbers other (hTail other hOther) before hBefore
    · refine hClones.pointer (h.real address hHead) (h.free other (hTail other hOther)) fun hEq => ?_
      exact hDistinct.1 (hEq ▸ mem_map_of_mem hOther)

/-- A fork adds a reference for each descriptor of a pipe. -/
theorem Balanced.processForked (h : Balanced fs) (hReal : fs.descriptors.pointer source (-1) = none)
    (hNew : ∀ fd, fs.descriptors.pointer fork fd = none)
    (hStep : fs.processForked source fork = some next) : Balanced next := by
  have hNumber : ∀ address ∈ (fs.descriptors.getProcessTable source).1.descriptors.values,
      ∃ fd content, fs.descriptors.pointer source fd = some address ∧
        fs.descriptors.contents address = some content ∧ content.id = fd := by
    intro address hAddress
    obtain ⟨fd, hFd⟩ := mem_entries.mp hAddress
    obtain ⟨content, hContent, hId⟩ := h.valid.descriptors.live source fd address hFd
    exact ⟨fd, content, hFd, hContent, hId⟩
  have hStart : Cloning
      (fun address => ((fs.descriptors.contents address).map FileDescriptorContent.id).getD 0) fork
      (fs.descriptors.getProcessTable source).1.descriptors.values (fs.touch source) := by
    refine ⟨h.touch source, ?_, ?_, ?_, ?_, ?_⟩
    · intro address hAddress
      obtain ⟨fd, content, -, hContent, -⟩ := hNumber address hAddress
      rw [touch_nextContent]
      exact h.valid.descriptors.fresh address (by rw [hContent]; exact some_ne_none _)
    · intro address _ content hContent
      rw [touch_contents] at hContent
      rw [hContent]
      rfl
    · intro address hAddress hEq
      obtain ⟨fd, content, hFd, hContent, rfl⟩ := hNumber address hAddress
      rw [hContent] at hEq
      have hId : content.id = -1 := hEq
      rw [hId, hReal] at hFd
      cases hFd
    · refine List.Nodup.map_on ?_ (nodup_entries h.valid source)
      intro first hFirst second hSecond hEq
      obtain ⟨fd, content, hFd, hContent, rfl⟩ := hNumber first hFirst
      obtain ⟨other, found, hOther, hFound, rfl⟩ := hNumber second hSecond
      rw [hContent, hFound] at hEq
      have hId : content.id = found.id := hEq
      rw [hId, hOther] at hFd
      exact (some.inj hFd).symm
    · intro address _
      rw [touch_pointer]
      exact hNew _
  exact (foldlM_remaining (fun _ _ _ _ hCloning hNext => hCloning.cloneNext hNext) hStart hStep).balanced

/-- The state of an exit with the entries that are still open. -/
structure Closing (pid : Pid) (rest : List Nat) (s : FileSystem) : Prop where
  balanced : Balanced s
  nodup : rest.Nodup
  entries : ∀ address, address ∈ rest ↔ ∃ fd, s.descriptors.pointer pid fd = some address

/-- One descriptor less is left to be closed. -/
theorem Closing.closeNext
    (h : Closing pid (address :: rest) s) (hStep : closeNext pid s address = some t) :
    Closing pid rest t := by
  obtain ⟨fd, hFd⟩ := (h.entries address).mp mem_cons_self
  obtain ⟨content, hContent, -⟩ := h.balanced.valid.descriptors.live pid fd address hFd
  have hDescriptor : s.descriptors.descriptor pid fd = some content := by
    rw [descriptor, hFd]
    exact hContent
  have hNodup := nodup_cons.mp h.nodup
  rw [FileSystem.closeNext, hContent] at hStep
  dsimp only at hStep
  cases hNode : s.vfs.getNodeById content.nodeID with
  | none =>
    have hHolds := h.balanced.known pid fd (by rw [hDescriptor]; exact some_ne_none _)
    rw [holds, nodeOf, hDescriptor, bind_some, hNode] at hHolds
    exact absurd rfl hHolds
  | some node =>
    rw [hNode] at hStep
    obtain ⟨⟨closed, unmapped⟩, hUnmap, rfl⟩ := map_eq_some_iff.mp hStep
    have hOf : s.nodeOf pid fd = some node := by
      rw [nodeOf, hDescriptor]
      exact hNode
    obtain ⟨hBalanced, hPointers⟩ := h.balanced.unmapFile hOf hFd hUnmap
    refine ⟨hBalanced, hNodup.2, fun other => ⟨fun hOther => ?_, ?_⟩⟩
    · obtain ⟨otherFd, hOtherFd⟩ := (h.entries other).mp (mem_cons_of_mem _ hOther)
      refine ⟨otherFd, ?_⟩
      rw [hPointers, if_neg, hOtherFd]
      rintro ⟨-, rfl⟩
      obtain rfl : address = other := some.inj (hFd.symm.trans hOtherFd)
      exact hNodup.1 hOther
    · rintro ⟨otherFd, hOtherFd⟩
      rw [hPointers] at hOtherFd
      split at hOtherFd
      · cases hOtherFd
      · rename_i hNe
        rcases mem_cons.mp ((h.entries other).mpr ⟨otherFd, hOtherFd⟩) with rfl | hRest
        · exact absurd (h.balanced.valid.descriptors.apart _ _ _ _ _ hFd hOtherFd) hNe
        · exact hRest

/-- An exit closes all the descriptors and then drops an empty table. -/
theorem Balanced.processClosed (h : Balanced fs)
    (hStep : fs.processClosed pid = some next) : Balanced next := by
  obtain ⟨closed, hLoop, rfl⟩ := map_eq_some_iff.mp hStep
  have hStart : Closing pid (fs.descriptors.getProcessTable pid).1.descriptors.values (fs.touch pid) := by
    refine ⟨h.touch pid, nodup_entries h.valid pid, fun address => ?_⟩
    rw [touch_pointer]
    exact mem_entries
  have hEnd : Closing pid [] closed :=
    foldlM_remaining (fun _ _ _ _ hClosing hNext => hClosing.closeNext hNext) hStart hLoop
  have hValid := hEnd.balanced.valid
  refine hEnd.balanced.of_descriptor
    (hValid.of_descriptors rfl (hValid.descriptors.unmapAll pid)) rfl rfl fun p f => ?_
  rw [descriptor_unmapAll hValid.descriptors]
  split
  · rename_i hPid
    subst hPid
    have hNone : closed.descriptors.descriptor pid f = none := by
      rw [hValid.descriptors.descriptor_eq_none_iff]
      by_contra hOpen
      obtain ⟨address, hAddress⟩ := ne_none_iff_exists'.mp hOpen
      exact not_mem_nil ((hEnd.entries address).mpr ⟨f, hAddress⟩)
    rw [hNone]
  · rfl

end Loops

/-- A call that the references follow. Everything new is unused: the pipe and its two numbers, the
number of an opened node and the table of a new process. A clone closes its target only within the
process of its source, no child of a node is overwritten, and only exits drop tables. -/
def KeepsReferences : ProcessEvent → Prop
  | .operation (.fsCreateNode parentID name _ _) => fs.vfs.findChild parentID name = none
  | .operation (.pipe pid buffer _) => PipeUnused fs pid buffer
  | .operation (.openNode pid nodeID _) =>
    fs.descriptors.pointer pid (fs.descriptors.nextFileDescriptor pid) = none ∧
      ∀ node, fs.vfs.getNodeById nodeID = some node → ∀ id, node.held = some (some id) →
        (fs.pipes.pipes.get id).isSome
  | .operation (.clonefd sourceFd sourcePid targetFd targetPid) =>
    CloneCounted fs sourceFd sourcePid targetFd targetPid
  | .operation (.unmapAll _) => False
  | .fork source fork => fs.descriptors.pointer source (-1) = none ∧
      ∀ fd, fs.descriptors.pointer fork fd = none
  | _ => True

structure ReferencesStep (event : ProcessEvent) (next : FileSystem) : Prop where
  step : ProcessStep fs event next
  keeps : KeepsReferences fs event

section Run

variable {fs next : FileSystem}

theorem Balanced.openNode (h : Balanced fs) {pid : Pid} {nodeID : Nat} {openFlags : Int}
    {node : FsNode} (hNode : fs.vfs.getNodeById nodeID = some node)
    (hUnused : fs.descriptors.pointer pid (fs.descriptors.nextFileDescriptor pid) = none)
    (hExists : ∀ id, node.held = some (some id) → (fs.pipes.pipes.get id).isSome) :
    Balanced (fs.mapFile pid node openFlags (-1)).2 := by
  have hId := h.valid.vfs.id_eq _ _ hNode
  cases hHeld : node.held with
  | none =>
    rw [mapFile_of_not_openable]
    · exact h
    · rw [FsNode.held] at hHeld
      split at hHeld
      · cases hHeld
      · cases hHeld
      · simp_all [FsNode.openable]
  | some held =>
    refine h.toCounted.mapFile (by rw [hId]; exact hNode) hHeld ?_ (fun id hEq => ?_)
      fun id _ => h.referenced id
    · rw [h.valid.descriptors.descriptor_eq_none_iff]
      exact hUnused
    · exact hExists id (hHeld.trans (congrArg some hEq))

/-- The step lemma: each call keeps references and descriptors in balance. -/
theorem ReferencesStep.balanced {event : ProcessEvent} (hStep : ReferencesStep fs event next)
    (h : Balanced fs) : Balanced next := by
  obtain ⟨hStep, hKeeps⟩ := hStep
  cases event with
  | fork source fork => exact h.processForked hKeeps.1 hKeeps.2 hStep
  | exit pid => exact h.processClosed hStep
  | operation operation =>
    cases operation with
    | fsCreateNode parentID name type physFsID =>
      cases hStep
      rw [FileSystem.fsCreateNode]
      split
      · exact h
      · rename_i parent hParent
        have hNew : fs.vfs.findChild parentID name = none := hKeeps
        rw [hNew]
        exact h.insert (isSome_of_eq_some hParent) _ _ _ _
    | createDelegate thread name physMountpointID =>
      cases hStep
      rw [FileSystem.createDelegate]
      split
      · exact h
      · exact h.insert h.valid.mountRoot _ _ _ _
    | createVfsNode ramdiskNode parent =>
      rw [ProcessStep, executeEvent, execute] at hStep
      split at hStep
      · cases hStep
        exact h
      · rename_i node hParent
        cases hStep
        exact h.insert (isSome_of_eq_some hParent) _ _ _ _
    | pipe pid buffer bytes =>
      cases hStep
      exact h.pipe hKeeps bytes
    | openNode pid nodeID openFlags =>
      rw [ProcessStep, executeEvent, execute] at hStep
      split at hStep
      · cases hStep
        exact h
      · rename_i node hNode
        cases hStep
        exact h.openNode hNode hKeeps.1 (hKeeps.2 node hNode)
    | close pid fd => exact h.close hStep
    | move pid fd offset =>
      rw [ProcessStep, executeEvent, execute] at hStep
      split at hStep
      · cases hStep
        exact h
      · obtain ⟨descriptors, hModify, rfl⟩ := map_eq_some_iff.mp hStep
        exact h.move hModify
    | clonefd sourceFd sourcePid targetFd targetPid =>
      obtain ⟨⟨r, status, cloned⟩, hClone, rfl⟩ := map_eq_some_iff.mp hStep
      exact h.clonefd hKeeps hClone
    | unmapAll pid => exact hKeeps.elim

theorem initial_balanced (ramdisk : Ramdisk) : Balanced (initial ramdisk) where
  valid := initial_valid ramdisk
  known _ _ hOpen := absurd rfl hOpen
  counted _ _ := rfl
  low := by
    change (-2 ^ 31 : Int) ≤ 0
    norm_num
  high := by
    change (0 : Int) < 2 ^ 31
    norm_num
  referenced _ hSome := by cases hSome

theorem Balanced.isSome_iff (h : Balanced fs) (id : Pipes.PipeID) :
    (fs.pipes.pipes.get id).isSome ↔ ∃ pid, 0 < fs.descriptorCount pid id := by
  simp only [← h.counted, count_pos_iff]
  constructor
  · intro hSome
    obtain ⟨pid, hPid⟩ := exists_mem_of_ne_nil _ (h.referenced id hSome)
    exact ⟨pid, hPid⟩
  · rintro ⟨pid, hPid⟩
    exact isSome_of_references (ne_nil_of_mem hPid)

end Run

/-- In every state that calls of this kind lead to, the list of a pipe has each
process as often as it has descriptors of the pipe, and the pipe exists exactly as
long as there are any. -/
theorem references_counted {ramdisk : Ramdisk} {events : List ProcessEvent} {fs : FileSystem}
    (run : Run ReferencesStep (initial ramdisk) events fs) (id : Pipes.PipeID) :
    (∀ pid, (fs.pipes.references id).count pid = fs.descriptorCount pid id) ∧
      ((fs.pipes.pipes.get id).isSome ↔ ∃ pid, 0 < fs.descriptorCount pid id) := by
  have hReached : Balanced fs :=
    run.invariant (initial_balanced ramdisk) fun _ _ _ hBalanced hStep => hStep.balanced hBalanced
  exact ⟨hReached.counted id, hReached.isSome_iff id⟩

/-- Process 1 makes a pipe and forks, process 2 replaces one of its ends by the
other and process 1 closes one. -/
theorem references_counted_fork : ∃ fs, Run ReferencesStep (initial emptyRamdisk)
        [.operation (.pipe 1 0x1000 fun _ => 0), .fork 1 2, .operation (.clonefd 4 2 3 2),
          .operation (.close 1 3)] fs ∧
      fs.descriptorCount 1 0 = 1 ∧ (fs.pipes.references 0).count 1 = fs.descriptorCount 1 0 ∧
      fs.descriptorCount 2 0 = 2 ∧ (fs.pipes.references 0).count 2 = fs.descriptorCount 2 0 ∧
      (fs.pipes.pipes.get 0).isSome := by
  have hPipe : Run ReferencesStep (initial emptyRamdisk) [.operation (.pipe 1 0x1000 fun _ => 0)] _ :=
    Run.single ⟨rfl, (⟨by decide, rfl, rfl, rfl⟩ : PipeUnused (initial emptyRamdisk) 1 0x1000)⟩
  have hFork := Run.snoc hPipe ⟨(rfl : executeEvent _ (.fork 1 2) = some _), ⟨rfl, fun _ => rfl⟩⟩
  have hClone := Run.snoc hFork ⟨(rfl : executeEvent _ (.operation (.clonefd 4 2 3 2)) = some _),
    (⟨fun _ => ⟨rfl, by decide⟩, nofun⟩ : CloneCounted _ 4 2 3 2)⟩
  have hRun := Run.snoc hClone
    ⟨(rfl : executeEvent _ (.operation (.close 1 3)) = some _), trivial⟩
  obtain ⟨hCounts, hExists⟩ := references_counted hRun 0
  exact ⟨_, hRun, rfl, hCounts 1, rfl, hCounts 2, hExists.mpr ⟨1, Nat.one_pos⟩⟩

/-- The numbers that a forked process has inherited are given out again. The new
pipe of process 2 takes them from the first pipe, which keeps its references for
ever. -/
theorem pipe_outlives_descriptors : ∃ fs, Run ProcessStep (initial emptyRamdisk)
        [.operation (.pipe 1 0x1000 fun _ => 0), .fork 1 2, .operation (.pipe 2 0x2000 fun _ => 0),
          .operation (.close 1 3), .operation (.close 1 4)] fs ∧
      (fs.pipes.pipes.get 0).isSome ∧ (fs.pipes.references 0).count 2 = 2 ∧
      fs.descriptorCount 1 0 = 0 ∧ fs.descriptorCount 2 0 = 0 :=
  ⟨_, Run.of_foldlM rfl, rfl, rfl, rfl, rfl⟩

end FileSystem

end Kernel
