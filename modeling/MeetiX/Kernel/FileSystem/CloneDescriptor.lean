import MeetiX.Kernel.FileSystem.FileSystem

/-! What `clonefd` changes in the descriptor tables. An open target is closed in the table of the
source process, so the expected frame holds exactly when that process loses nothing there. -/
namespace Kernel

open Function FsNode Option

/-- The types of nodes that `mapFile` and `unmapFile` serve. -/
def FsNode.openable (node : FsNode) : Bool := node.type = .file || node.type = .pipe

namespace FileSystem

open FileDescriptors

structure Valid (fs : FileSystem) : Prop where
  vfs : fs.vfs.Valid
  descriptors : fs.descriptors.Valid
  root : (fs.vfs.nodes.get Vfs.root).isSome
  mountRoot : (fs.vfs.nodes.get Vfs.mountRoot).isSome
  pipeRoot : (fs.vfs.nodes.get Vfs.pipeRoot).isSome

/-- The table of a process exists once one has looked for a descriptor. -/
def touch (fs : FileSystem) (pid : Pid) : FileSystem :=
  { fs with descriptors := (fs.descriptors.getProcessTable pid).2 }

section Lookup

variable {fs : FileSystem} {pid : Pid} {fd : Fd} {node : FsNode}

theorem Valid.touch (h : fs.Valid) (pid : Pid) : (fs.touch pid).Valid :=
  ⟨h.vfs, h.descriptors.getProcessTable pid, h.root, h.mountRoot, h.pipeRoot⟩

@[simp] theorem touch_vfs (pid : Pid) : (fs.touch pid).vfs = fs.vfs := rfl

@[simp] theorem touch_pointer (pid : Pid) :
    (fs.touch pid).descriptors.pointer = fs.descriptors.pointer :=
  pointer_getProcessTable fs.descriptors pid

@[simp] theorem touch_contents (pid : Pid) :
    (fs.touch pid).descriptors.contents = fs.descriptors.contents :=
  contents_getProcessTable fs.descriptors pid

theorem touch_nextContent (pid : Pid) :
    (fs.touch pid).descriptors.nextContent = fs.descriptors.nextContent :=
  nextContent_getProcessTable fs.descriptors pid

@[simp] theorem touch_descriptor (pid : Pid) :
    (fs.touch pid).descriptors.descriptor = fs.descriptors.descriptor :=
  descriptor_getProcessTable fs.descriptors pid

@[simp] theorem touch_nodeOf (pid : Pid) : (fs.touch pid).nodeOf = fs.nodeOf := by
  funext other fd
  simp only [nodeOf, touch_descriptor, touch_vfs]

theorem nodeForDescriptor_eq_none (h : fs.Valid) (hNode : fs.nodeOf pid fd = none) :
    fs.nodeForDescriptor pid fd = some (none, fs.touch pid) := by
  rw [nodeForDescriptor]
  simp only [get_fst, get_snd, contents_getProcessTable]
  cases hPointer : fs.descriptors.pointer pid fd with
  | none => rfl
  | some address =>
    obtain ⟨content, hContent, -⟩ := h.descriptors.live pid fd address hPointer
    have hGet : fs.vfs.getNodeById content.nodeID = none := by
      simpa [nodeOf, descriptor, hPointer, hContent] using hNode
    simp only [hContent, hGet]
    rfl

theorem nodeForDescriptor_eq_some (h : fs.Valid) (hNode : fs.nodeOf pid fd = some node) :
    ∃ address content, fs.descriptors.pointer pid fd = some address ∧
      fs.descriptors.contents address = some content ∧ content.id = fd ∧
      fs.vfs.getNodeById content.nodeID = some node ∧
      fs.nodeForDescriptor pid fd = some (some (node, address), fs.touch pid) := by
  cases hPointer : fs.descriptors.pointer pid fd with
  | none => simp [nodeOf, descriptor, hPointer] at hNode
  | some address =>
    obtain ⟨content, hContent, hId⟩ := h.descriptors.live pid fd address hPointer
    have hGet : fs.vfs.getNodeById content.nodeID = some node := by
      simpa [nodeOf, descriptor, hPointer, hContent] using hNode
    refine ⟨address, content, rfl, hContent, hId, hGet, ?_⟩
    rw [nodeForDescriptor]
    simp only [get_fst, get_snd, contents_getProcessTable, hPointer, hContent, hGet]
    rfl

theorem nodeForDescriptor_state {answer : Option (FsNode × Nat)} {next : FileSystem}
    (h : fs.nodeForDescriptor pid fd = some (answer, next)) : next = fs.touch pid := by
  unfold nodeForDescriptor at h
  dsimp only at h
  split at h
  · cases h
    rfl
  · split at h
    · cases h
    · split at h
      · cases h
        rfl
      · cases h
        rfl

theorem nodeOf_id (h : fs.Valid) (hNode : fs.nodeOf pid fd = some node) : fs.vfs.getNodeById node.id = some node := by
  obtain ⟨-, content, -, -, -, hGet, -⟩ := nodeForDescriptor_eq_some h hNode
  rw [h.vfs.id_eq _ _ hGet]
  exact hGet

end Lookup

section Files

variable {fs next : FileSystem} {node : FsNode} {address : Nat} {content : FileDescriptorContent}

theorem mapFile_of_openable (hNode : node.openable) (pid : Pid) (openFlags : Int) (fd : Fd) :
    (fs.mapFile pid node openFlags fd).1 = (fs.descriptors.map pid node.id fd openFlags).1 ∧
      (fs.mapFile pid node openFlags fd).2.descriptors =
        (fs.descriptors.map pid node.id fd openFlags).2 ∧
      (fs.mapFile pid node openFlags fd).2.vfs = fs.vfs := by
  rcases (by simpa [openable] using hNode : node.type = .file ∨ node.type = .pipe) with
    hType | hType <;> simp only [mapFile, hType, and_self]

theorem mapFile_of_not_openable (hNode : node.openable = false) (pid : Pid) (openFlags : Int)
    (fd : Fd) : fs.mapFile pid node openFlags fd = (-1, fs) := by
  rw [mapFile]
  split
  · simp_all [openable]
  · simp_all [openable]
  · rfl

theorem Valid.of_descriptors (h : fs.Valid) (hVfs : next.vfs = fs.vfs)
    (hDescriptors : next.descriptors.Valid) : next.Valid := by
  obtain ⟨vfs, descriptors, pipes, ramdisk, transactions⟩ := next
  cases hVfs
  exact ⟨h.vfs, hDescriptors, h.root, h.mountRoot, h.pipeRoot⟩

theorem Valid.mapFile (h : fs.Valid) (node : FsNode) (pid : Pid) (openFlags : Int) (fd : Fd) :
    (fs.mapFile pid node openFlags fd).2.Valid := by
  cases hNode : node.openable with
  | false =>
    rw [mapFile_of_not_openable hNode]
    exact h
  | true =>
    obtain ⟨-, hDescriptors, hVfs⟩ := @mapFile_of_openable fs node hNode pid openFlags fd
    apply h.of_descriptors hVfs
    rw [hDescriptors]
    exact h.descriptors.map pid node.id fd openFlags

theorem Valid.modifyContent (h : fs.Valid) {change : FileDescriptorContent → FileDescriptorContent}
    (hId : ∀ content, (change content).id = content.id) {descriptors : FileDescriptors}
    (hModify : fs.descriptors.modifyContent address change = some descriptors) :
    { fs with descriptors := descriptors }.Valid := by
  cases hContent : fs.descriptors.contents address with
  | none =>
    rw [FileDescriptors.modifyContent, hContent] at hModify
    cases hModify
  | some content =>
    obtain ⟨next, hNext, hValid, -⟩ :=
      modifyContent_spec h.descriptors hContent change (hId content)
    obtain rfl : next = descriptors := some.inj (hNext.symm.trans hModify)
    exact h.of_descriptors rfl hValid

theorem Valid.cloneInto (h : fs.Valid) {source target : Nat}
    (hClone : fs.cloneInto source target = some next) : next.Valid := by
  rw [FileSystem.cloneInto] at hClone
  cases hContent : fs.descriptors.contents source with
  | none =>
    rw [hContent] at hClone
    cases hClone
  | some content =>
    rw [hContent] at hClone
    obtain ⟨descriptors, hModify, rfl⟩ := map_eq_some_iff.mp hClone
    have hId : ∀ other, (content.cloneInto other).id = other.id := fun _ => rfl
    exact h.modifyContent hId hModify

theorem unmapFile_of_openable (h : fs.Valid) (hNode : node.openable) (pid : Pid)
    (hContent : fs.descriptors.contents address = some content) :
    ∃ next, fs.unmapFile pid node address = some (true, next) ∧ next.vfs = fs.vfs ∧
      fs.descriptors.unmap pid content.id = some next.descriptors := by
  obtain ⟨descriptors, hUnmap, -⟩ := unmap_spec h.descriptors pid content.id
  rcases (by simpa [openable] using hNode : node.type = .file ∨ node.type = .pipe) with
    hType | hType
  · refine ⟨{ fs with descriptors := descriptors }, ?_, rfl, hUnmap⟩
    simp only [unmapFile, hContent, hType, hUnmap, map_some]
  · refine ⟨{ fs with
      descriptors := descriptors
      pipes := fs.pipes.removeReference (toPipeID node.physFsID) pid }, ?_, rfl, hUnmap⟩
    simp only [unmapFile, hContent, hType, hUnmap, map_some]

theorem unmapFile_of_not_openable (hNode : node.openable = false) (pid : Pid)
    (hContent : fs.descriptors.contents address = some content) :
    fs.unmapFile pid node address = some (false, fs) := by
  rw [unmapFile, hContent]
  dsimp only
  split
  · simp_all [openable]
  · simp_all [openable]
  · rfl

/-- A file is left as it is or unmapped. -/
theorem unmapFile_cases (h : fs.Valid) {pid : Pid} {closed : Bool}
    (hUnmap : fs.unmapFile pid node address = some (closed, next)) :
    next.Valid ∧ (next = fs ∨ ∃ fd, fs.descriptors.unmap pid fd = some next.descriptors) := by
  cases hContent : fs.descriptors.contents address with
  | none =>
    rw [unmapFile, hContent] at hUnmap
    cases hUnmap
  | some content =>
    cases hOpen : node.openable with
    | false =>
      rw [unmapFile_of_not_openable hOpen pid hContent] at hUnmap
      cases hUnmap
      exact ⟨h, .inl rfl⟩
    | true =>
      obtain ⟨unmapped, hUnmapped, hVfs, hDescriptors⟩ := unmapFile_of_openable h hOpen pid hContent
      rw [hUnmap] at hUnmapped
      cases hUnmapped
      obtain ⟨descriptors, hSome, hValid, -⟩ := unmap_spec h.descriptors pid content.id
      obtain rfl : descriptors = next.descriptors := some.inj (hSome.symm.trans hDescriptors)
      exact ⟨h.of_descriptors hVfs hValid, .inr ⟨_, hDescriptors⟩⟩

end Files

section Clone

variable {fs : FileSystem}
variable {node : FsNode} {targetFd sourceFd r created : Fd} {targetPid sourcePid : Pid} {next : FileSystem}
variable {source : Nat} {status : FsClonefdStatus}

/-- A target descriptor that `clonefd` finds open and closes. -/
def closes (fs : FileSystem) (targetFd : Fd) (targetPid : Pid) : Bool :=
  targetFd ≠ -1 && (fs.nodeOf targetPid targetFd).any openable

/-- The target is closed in the table of the source process, if the target process has it. -/
theorem closeTarget_spec (h : fs.Valid) (sourcePid : Pid) (targetFd : Fd) (targetPid : Pid) :
    ∃ next, fs.closeTarget sourcePid targetFd targetPid = some next ∧ next.Valid ∧
      next.vfs = fs.vfs ∧ next.descriptors.nextContent = fs.descriptors.nextContent ∧
      (∀ pid fd, next.descriptors.pointer pid fd =
        if fs.closes targetFd targetPid ∧ sourcePid = pid ∧ targetFd = fd then none
        else fs.descriptors.pointer pid fd) ∧
      ∀ address, next.descriptors.contents address =
        if fs.closes targetFd targetPid ∧
          fs.descriptors.pointer sourcePid targetFd = some address then none
        else fs.descriptors.contents address := by
  by_cases hFd : targetFd = -1
  · exact ⟨fs, by rw [closeTarget, if_pos hFd], h, rfl, rfl, by simp [closes, hFd],
      by simp [closes, hFd]⟩
  · rw [closeTarget, if_neg hFd]
    cases hNode : fs.nodeOf targetPid targetFd with
    | none =>
      rw [nodeForDescriptor_eq_none h hNode]
      exact ⟨fs.touch targetPid, rfl, h.touch targetPid, rfl, touch_nextContent targetPid,
        by simp [closes, hNode], by simp [closes, hNode]⟩
    | some node =>
      obtain ⟨address, content, -, hContent, hId, -, hFound⟩ := nodeForDescriptor_eq_some h hNode
      have hTouched : (fs.touch targetPid).descriptors.contents address = some content := by
        rw [touch_contents]
        exact hContent
      rw [hFound]
      cases hOpen : node.openable with
      | false =>
        have hKept := unmapFile_of_not_openable hOpen sourcePid hTouched
        exact ⟨fs.touch targetPid, by simp only [hKept, map_some], h.touch targetPid, rfl,
          touch_nextContent targetPid, by simp [closes, hNode, hOpen],
          by simp [closes, hNode, hOpen]⟩
      | true =>
        obtain ⟨next, hNext, hVfs, hUnmap⟩ :=
          unmapFile_of_openable (h.touch targetPid) hOpen sourcePid hTouched
        rw [hId] at hUnmap
        obtain ⟨descriptors, hSome, hValid, hCounter, hPointers, hContents⟩ :=
          unmap_spec (h.touch targetPid).descriptors sourcePid targetFd
        obtain rfl : descriptors = next.descriptors :=
          some.inj (hSome.symm.trans hUnmap)
        refine ⟨next, by simp only [hNext, map_some],
          (h.touch targetPid).of_descriptors hVfs hValid, hVfs,
          hCounter.trans (touch_nextContent targetPid), ?_, ?_⟩
        · simpa [closes, hNode, hOpen, hFd] using hPointers
        · simpa [closes, hNode, hOpen, hFd] using hContents

/-- Opening the clone of a source that `mapFile` serves: all that is left is
to copy the content of the source into the new one. -/
theorem openClone_eq (h : fs.Valid) (hOpen : node.openable)
    (hNode : fs.vfs.getNodeById node.id = some node) (source : Nat)
    (hCreated : (fs.descriptors.map targetPid node.id targetFd 0).1 = created)
    (hReal : created ≠ -1) :
    ∃ mapped : FileSystem, mapped.Valid ∧ mapped.vfs = fs.vfs ∧
      mapped.descriptors.pointer = (fs.descriptors.map targetPid node.id targetFd 0).2.pointer ∧
      mapped.descriptors.contents = (fs.descriptors.map targetPid node.id targetFd 0).2.contents ∧
      fs.openClone node source targetFd targetPid =
        (mapped.cloneInto source fs.descriptors.nextContent).map fun next =>
          (created, .successful, next) := by
  obtain ⟨hFd, hDescriptors, hVfs⟩ := @mapFile_of_openable fs node hOpen targetPid 0 targetFd
  have hMapped := h.mapFile node targetPid 0 targetFd
  have hEntry := descriptor_map h.descriptors targetPid node.id targetFd 0 targetPid created
  have hPointer := pointer_map fs.descriptors targetPid node.id targetFd 0 targetPid created
  rw [hCreated, if_pos ⟨rfl, rfl⟩, ← hDescriptors] at hEntry hPointer
  have hOf : (fs.mapFile targetPid node 0 targetFd).2.nodeOf targetPid created = some node := by
    rw [nodeOf, hEntry, hVfs]
    exact hNode
  obtain ⟨address, -, hAddress, -, -, -, hFound⟩ := nodeForDescriptor_eq_some hMapped hOf
  obtain rfl : fs.descriptors.nextContent = address :=
    some.inj (hPointer.symm.trans hAddress)
  refine ⟨(fs.mapFile targetPid node 0 targetFd).2.touch targetPid, hMapped.touch targetPid, hVfs,
    ?_, ?_, ?_⟩
  · rw [touch_pointer, hDescriptors]
  · rw [touch_contents, hDescriptors]
  · rw [openClone]
    dsimp only
    rw [hFd, hCreated, if_neg hReal, hFound]

/-- Where `openClone` returns after the node was mapped. -/
theorem openClone_cases (h : fs.openClone node source targetFd targetPid = some (r, status, next)) :
    next = (fs.mapFile targetPid node 0 targetFd).2 ∨
      next = (fs.mapFile targetPid node 0 targetFd).2.touch targetPid ∨
      ∃ target, ((fs.mapFile targetPid node 0 targetFd).2.touch targetPid).cloneInto source target =
        some next := by
  unfold openClone at h
  dsimp only at h
  split at h
  · cases h
    exact .inl rfl
  · split at h
    · cases h
    · rename_i touched hFind
      cases h
      exact .inr (.inl (nodeForDescriptor_state hFind))
    · rename_i found target touched hFind
      obtain rfl := nodeForDescriptor_state hFind
      obtain ⟨cloned, hClone, hPair⟩ := map_eq_some_iff.mp h
      cases hPair
      exact .inr (.inr ⟨target, hClone⟩)

/-- The new descriptor gets the content of the source under its own number. -/
theorem openClone_of_live (h : fs.Valid) (hOpen : node.openable)
    (hNode : fs.vfs.getNodeById node.id = some node)
    {content : FileDescriptorContent} (hContent : fs.descriptors.contents source = some content)
    (hCreated : (fs.descriptors.map targetPid node.id targetFd 0).1 = created)
    (hReal : created ≠ -1) :
    ∃ next, fs.openClone node source targetFd targetPid = some (created, .successful, next) ∧
      next.Valid ∧ next.vfs = fs.vfs ∧
      ∀ pid fd, next.descriptors.descriptor pid fd =
        if targetPid = pid ∧ created = fd then some { content with id := created }
        else fs.descriptors.descriptor pid fd := by
  obtain ⟨mapped, hValid, hVfs, hPointers, hContents, hEq⟩ :=
    openClone_eq h hOpen hNode source hCreated hReal
  have hNe : source ≠ fs.descriptors.nextContent := by
    have hLt := h.descriptors.fresh source (by rw [hContent]; exact some_ne_none _)
    omega
  rw [contents_map, hCreated] at hContents
  have hSource : mapped.descriptors.contents source = some content := by
    rw [hContents, update_of_ne hNe, hContent]
  have hTarget : mapped.descriptors.contents fs.descriptors.nextContent =
      some ⟨created, 0, node.id, 0⟩ := by
    rw [hContents, update_self]
  obtain ⟨descriptors, hModify, hKeeps, hSame, hFilled⟩ :=
    modifyContent_spec hValid.descriptors hTarget content.cloneInto rfl
  refine ⟨{ mapped with descriptors := descriptors }, ?_, hValid.of_descriptors rfl hKeeps, hVfs, ?_⟩
  · rw [hEq, cloneInto, hSource]
    dsimp only
    rw [hModify]
    rfl
  · intro pid fd
    have hMap := pointer_map fs.descriptors targetPid node.id targetFd 0 pid fd
    rw [hCreated] at hMap
    rw [descriptor, hSame, hPointers, hMap, hFilled]
    split
    · rw [bind_some, update_self]
      rfl
    · rw [descriptor]
      cases hAt : fs.descriptors.pointer pid fd with
      | none => rfl
      | some address =>
        have hAddress : address ≠ fs.descriptors.nextContent := fun hEq =>
          h.descriptors.pointer_ne_nextContent pid fd (hAt.trans (congrArg some hEq))
        rw [bind_some, bind_some, update_of_ne hAddress, hContents,
          update_of_ne hAddress]

/-- A source content that was deleted in between is read all the same. -/
theorem openClone_of_deleted (h : fs.Valid) (hOpen : node.openable)
    (hNode : fs.vfs.getNodeById node.id = some node)
    (hContent : fs.descriptors.contents source = none)
    (hSource : source ≠ fs.descriptors.nextContent)
    (hFd : targetFd ≠ -1) : fs.openClone node source targetFd targetPid = none := by
  have hCreated : (fs.descriptors.map targetPid node.id targetFd 0).1 = targetFd := by
    rw [map_fst, if_neg hFd]
  obtain ⟨mapped, -, -, -, hContents, hEq⟩ :=
    openClone_eq h hOpen hNode source hCreated hFd
  rw [hEq, cloneInto, hContents, contents_map, update_of_ne hSource, hContent]
  rfl

theorem descriptor_of_closeTarget (h : fs.Valid)
    (hClose : fs.closeTarget sourcePid targetFd targetPid = some next) (pid : Pid) (fd : Fd) :
    next.descriptors.descriptor pid fd =
      if fs.closes targetFd targetPid ∧ sourcePid = pid ∧ targetFd = fd then none
      else fs.descriptors.descriptor pid fd := by
  obtain ⟨next', hNext, -, -, -, hPointers, hContents⟩ :=
    closeTarget_spec h sourcePid targetFd targetPid
  obtain rfl : next' = next := some.inj (hNext.symm.trans hClose)
  rw [descriptor, hPointers]
  split
  · rfl
  · rename_i hOther
    rw [descriptor]
    cases hAt : fs.descriptors.pointer pid fd with
    | none => rfl
    | some address =>
      rw [bind_some, bind_some, hContents, if_neg]
      rintro ⟨hCloses, hTarget⟩
      exact hOther ⟨hCloses, h.descriptors.apart _ _ _ _ _ hTarget hAt⟩

/-- A call of `clonefd` that, if it succeeds with the descriptor `r`, changes
only this entry of the target process, makes it a copy of the source and
leaves the source where it was. -/
def CloneFramed (fs : FileSystem) (sourceFd : Fd) (sourcePid : Pid) (targetFd : Fd)
    (targetPid : Pid) : Prop :=
  ∃ r status next, fs.clonefd sourceFd sourcePid targetFd targetPid = some (r, status, next) ∧
    (status = .successful →
      (∀ pid fd, (pid, fd) ≠ (targetPid, r) →
        next.descriptors.descriptor pid fd = fs.descriptors.descriptor pid fd) ∧
      next.nodeOf targetPid r = fs.nodeOf sourcePid sourceFd ∧
      ∃ source, fs.descriptors.descriptor sourcePid sourceFd = some source ∧
        next.descriptors.descriptor sourcePid sourceFd = some source ∧
        next.descriptors.descriptor targetPid r = some { source with id := r })

/-- The source process has nothing to lose: if both nodes can be opened and
closed, its own descriptor with the number of the target is the target and not
the source, or it has none. -/
def CloneSafe (fs : FileSystem) (sourceFd : Fd) (sourcePid : Pid) (targetFd : Fd)
    (targetPid : Pid) : Prop :=
  (fs.nodeOf sourcePid sourceFd).any openable → fs.closes targetFd targetPid →
    if sourcePid = targetPid then targetFd ≠ sourceFd
    else fs.descriptors.descriptor sourcePid targetFd = none

theorem clonefd_eq (h : fs.Valid)
    (hNode : fs.nodeOf sourcePid sourceFd = some node) (targetFd : Fd) (targetPid : Pid) :
    ∃ source content closed, fs.descriptors.pointer sourcePid sourceFd = some source ∧
      fs.descriptors.contents source = some content ∧ content.id = sourceFd ∧
      (fs.touch sourcePid).closeTarget sourcePid targetFd targetPid = some closed ∧
      fs.clonefd sourceFd sourcePid targetFd targetPid =
        closed.openClone node source targetFd targetPid := by
  obtain ⟨source, content, hPointer, hContent, hId, -, hFound⟩ := nodeForDescriptor_eq_some h hNode
  obtain ⟨closed, hClosed, -⟩ := closeTarget_spec (h.touch sourcePid) sourcePid targetFd targetPid
  refine ⟨source, content, closed, hPointer, hContent, hId, hClosed, ?_⟩
  rw [clonefd, hFound]
  dsimp only
  rw [hClosed]

@[simp] theorem touch_closes (pid : Pid) (targetFd : Fd) (targetPid : Pid) :
    (fs.touch pid).closes targetFd targetPid = fs.closes targetFd targetPid := by
  rw [closes, closes, touch_nodeOf]

/-- Where `clonefd` returns. -/
theorem clonefd_cases (h : fs.clonefd sourceFd sourcePid targetFd targetPid = some (r, status, next)) :
    next = fs.touch sourcePid ∨ ∃ node source closed,
      (fs.touch sourcePid).closeTarget sourcePid targetFd targetPid = some closed ∧
      closed.openClone node source targetFd targetPid = some (r, status, next) := by
  unfold clonefd at h
  split at h
  · cases h
  · rename_i touched hFind
    cases h
    exact .inl (nodeForDescriptor_state hFind)
  · rename_i node source touched hFind
    obtain rfl := nodeForDescriptor_state hFind
    split at h
    · cases h
    · rename_i closed hClose
      exact .inr ⟨node, source, closed, hClose, h⟩

theorem closes_fd (hCloses : fs.closes targetFd targetPid) : targetFd ≠ -1 := by
  simp only [closes, decide_not, Bool.and_eq_true, Bool.not_eq_true',
    decide_eq_false_iff_not] at hCloses
  exact hCloses.1

/-- A node that can be opened is cloned, if closing the target takes nothing else away from the
source process. -/
theorem framed_of_openable (h : fs.Valid) (hNode : fs.nodeOf sourcePid sourceFd = some node)
    (hOpen : node.openable)
    (hLost : fs.closes targetFd targetPid → if sourcePid = targetPid then targetFd ≠ sourceFd
      else fs.descriptors.descriptor sourcePid targetFd = none) :
    fs.CloneFramed sourceFd sourcePid targetFd targetPid := by
  obtain ⟨source, content, closed, hPointer, hContent, hId, hClosed, hEq⟩ :=
    clonefd_eq h hNode targetFd targetPid
  obtain ⟨closed', hClosed', hValid, hVfs, -, -, hContents⟩ :=
    closeTarget_spec (h.touch sourcePid) sourcePid targetFd targetPid
  obtain rfl : closed' = closed := some.inj (hClosed'.symm.trans hClosed)
  have hLive : closed'.descriptors.contents source = some content := by
    rw [hContents, touch_pointer, touch_closes, touch_contents, if_neg, hContent]
    rintro ⟨hCloses, hSame⟩
    have hKeep := hLost hCloses
    split at hKeep
    · exact hKeep (h.descriptors.apart _ _ _ _ _ hSame hPointer).2
    · rw [descriptor, hSame, bind_some, hContent] at hKeep
      cases hKeep
  have hReg : closed'.vfs.getNodeById node.id = some node := by
    rw [hVfs]
    exact @nodeOf_id fs _ _ _ h hNode
  obtain ⟨created, hCreated⟩ :
    ∃ created, (closed'.descriptors.map targetPid node.id targetFd 0).1 = created := ⟨_, rfl⟩
  by_cases hReal : created = -1
  · refine ⟨-1, .error, (closed'.mapFile targetPid node 0 targetFd).2, ?_,
      fun hStatus => by cases hStatus⟩
    have hFd := (@mapFile_of_openable closed' node hOpen targetPid 0 targetFd).1
    rw [hEq, openClone]
    dsimp only
    rw [hFd, hCreated, if_pos hReal]
  · obtain ⟨next, hNext, -, hNextVfs, hDescriptors⟩ :=
      openClone_of_live hValid hOpen hReg hLive hCreated hReal
    have hSource : fs.descriptors.descriptor sourcePid sourceFd = some content := by
      rw [descriptor, hPointer]
      exact hContent
    have hFrame : ∀ pid fd, (pid, fd) ≠ (targetPid, created) →
        next.descriptors.descriptor pid fd = fs.descriptors.descriptor pid fd := by
      intro pid fd hNe
      rw [hDescriptors, if_neg fun hEntry => hNe (Prod.ext hEntry.1.symm hEntry.2.symm),
        descriptor_of_closeTarget (h.touch sourcePid) hClosed, touch_closes,
        touch_descriptor]
      split
      · rename_i hTaken
        obtain ⟨hCloses, rfl, rfl⟩ := hTaken
        have hKeep := hLost hCloses
        split at hKeep
        · rename_i hPid
          rw [map_fst, if_neg (closes_fd hCloses)] at hCreated
          exact absurd (Prod.ext hPid hCreated) hNe
        · exact hKeep.symm
      · rfl
    refine ⟨created, .successful, next, hEq.trans hNext, fun _ => ⟨hFrame, ?_, content,
      hSource, ?_, ?_⟩⟩
    · rw [nodeOf, hDescriptors, if_pos ⟨rfl, rfl⟩, hNextVfs, hVfs, nodeOf, hSource]
      rfl
    · by_cases hEntry : (sourcePid, sourceFd) = (targetPid, created)
      · obtain ⟨hPid, hFd⟩ := Prod.mk.inj hEntry
        rw [hDescriptors, if_pos ⟨hPid.symm, hFd.symm⟩, ← hFd, ← hId]
      · rw [hFrame _ _ hEntry, hSource]
    · rw [hDescriptors, if_pos ⟨rfl, rfl⟩]

theorem framed_of_safe (h : fs.Valid) (hSafe : fs.CloneSafe sourceFd sourcePid targetFd targetPid) :
    fs.CloneFramed sourceFd sourcePid targetFd targetPid := by
  cases hNode : fs.nodeOf sourcePid sourceFd with
  | none =>
    refine ⟨-1, .invalidSourceFd, fs.touch sourcePid, ?_, fun hStatus => by cases hStatus⟩
    rw [clonefd, nodeForDescriptor_eq_none h hNode]
  | some node =>
    cases hOpen : node.openable with
    | false =>
      obtain ⟨source, -, closed, -, -, -, -, hEq⟩ := clonefd_eq h hNode targetFd targetPid
      refine ⟨-1, .error, closed, ?_, fun hStatus => by cases hStatus⟩
      rw [hEq, openClone, mapFile_of_not_openable hOpen]
      rfl
    | true => exact framed_of_openable h hNode hOpen (hSafe (by rw [hNode]; exact hOpen))

/-- Without a safe source, the source or another descriptor of its process is
lost. -/
theorem safe_of_framed (h : fs.Valid)
    (hFramed : fs.CloneFramed sourceFd sourcePid targetFd targetPid) :
    fs.CloneSafe sourceFd sourcePid targetFd targetPid := by
  intro hAny hCloses
  obtain ⟨node, hNode, hOpen⟩ := (any_eq_true _ _).mp hAny
  obtain ⟨r, status, next, hClone, hSuccess⟩ := hFramed
  obtain ⟨source, content, closed, hPointer, hContent, -, hClosed, hEq⟩ :=
    clonefd_eq h hNode targetFd targetPid
  obtain ⟨closed', hClosed', hValid, hVfs, hCounter, -, hContents⟩ :=
    closeTarget_spec (h.touch sourcePid) sourcePid targetFd targetPid
  obtain rfl : closed' = closed := some.inj (hClosed'.symm.trans hClosed)
  have hFd := closes_fd hCloses
  have hReg : closed'.vfs.getNodeById node.id = some node := by
    rw [hVfs]
    exact @nodeOf_id fs _ _ _ h hNode
  have hLt := h.descriptors.fresh source (by rw [hContent]; exact some_ne_none _)
  rw [touch_nextContent] at hCounter
  have hNotSource : fs.descriptors.pointer sourcePid targetFd ≠ some source := by
    intro hSame
    have hDeleted : closed'.descriptors.contents source = none := by
      rw [hContents, if_pos ⟨by rw [touch_closes]; exact hCloses, by rw [touch_pointer]; exact hSame⟩]
    rw [hEq, openClone_of_deleted hValid hOpen hReg hDeleted (by omega) hFd] at hClone
    cases hClone
  split
  · rintro rfl
    exact hNotSource hPointer
  · rename_i hPid
    have hLive : closed'.descriptors.contents source = some content := by
      rw [hContents, touch_pointer, touch_contents, if_neg fun hBoth => hNotSource hBoth.2, hContent]
    have hCreated : (closed'.descriptors.map targetPid node.id targetFd 0).1 = targetFd := by
      rw [map_fst, if_neg hFd]
    obtain ⟨next', hNext, -, -, hDescriptors⟩ :=
      openClone_of_live hValid hOpen hReg hLive hCreated hFd
    have hAnswer := hClone.symm.trans (hEq.trans hNext)
    cases hAnswer
    obtain ⟨hFrame, -⟩ := hSuccess rfl
    have hNe : (sourcePid, targetFd) ≠ (targetPid, targetFd) := fun hBoth =>
      hPid (Prod.mk.inj hBoth).1
    rw [← hFrame _ _ hNe, hDescriptors, if_neg fun hBoth => hPid hBoth.1.symm,
      descriptor_of_closeTarget (h.touch sourcePid) hClosed, touch_closes,
      if_pos ⟨hCloses, rfl, rfl⟩]

/-- `clonefd` keeps the tables in order even where it closes the wrong
descriptor. -/
theorem clonefd_valid (h : fs.Valid)
    (hClone : fs.clonefd sourceFd sourcePid targetFd targetPid = some (r, status, next)) :
    next.Valid := by
  rcases clonefd_cases hClone with rfl | ⟨node, source, closed, hClose, hOpen⟩
  · exact h.touch sourcePid
  · obtain ⟨closed', hClosed, hValid, -⟩ :=
      closeTarget_spec (h.touch sourcePid) sourcePid targetFd targetPid
    obtain rfl : closed' = closed := some.inj (hClosed.symm.trans hClose)
    have hMapped := hValid.mapFile node targetPid 0 targetFd
    rcases openClone_cases hOpen with rfl | rfl | ⟨target, hCopy⟩
    · exact hMapped
    · exact hMapped.touch targetPid
    · exact (hMapped.touch targetPid).cloneInto hCopy

end Clone

end FileSystem

end Kernel
