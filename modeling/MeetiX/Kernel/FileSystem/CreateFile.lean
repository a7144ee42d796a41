import MeetiX.Kernel.FileSystem.OpenDescriptors
import MeetiX.Kernel.FileSystem.RamdiskPath

/-! Files that a call of `fsOpen` creates. The nodes of the ramdisk mirror its tree, so the
discovery of existing folders ends at the node of the last one. The delegate makes an entry there,
whatever is left of the path, and gives it the whole path as its name. -/
namespace Kernel.FileSystem

open Base Ramdisk Option
open Vfs (mountName)

variable (ramdisk : Ramdisk)

/-- The root has the number 0 and the numbers of the entries are words. -/
structure WellNumbered : Prop where
  root : ramdisk.root.id = 0
  ids : ∀ entry ∈ ramdisk.headers, entry.id < wordSize

/-- The entries of a ramdisk form a tree of names. -/
structure RamdiskTree : Prop where
  root : ramdisk.root.id = 0
  folder : ramdisk.root.type = .folder
  ids : ∀ entry ∈ ramdisk.headers, entry.id < wordSize
  counter : ramdisk.nextUnusedId < wordSize
  names : ∀ entry ∈ ramdisk.headers, entry.name ≠ [dot] ∧ entry.name ≠ [dot, dot]

theorem RamdiskTree.numbered {ramdisk : Ramdisk} (h : RamdiskTree ramdisk) : WellNumbered ramdisk :=
  ⟨h.root, h.ids⟩

/-- The nodes below the root, up to the one where the delegates are mounted, are
nodes of entries of the ramdisk. -/
structure Mirrors (vfs : Vfs) : Prop where
  valid : vfs.Valid
  root : ∃ node, vfs.nodes.get Vfs.root = some node ∧ node.delegate = some .ramdisk ∧
    node.physFsID = 0
  mountRoot : ∃ node, vfs.nodes.get Vfs.mountRoot = some node ∧ node.name = some mountName ∧
    node.parent = some Vfs.root
  backed : ∀ id node, vfs.nodes.get id = some node → vfs.getDelegate id = some .ramdisk →
    ∃ entry, ramdisk.findById node.physFsID = some entry ∧ entry.id = node.physFsID
  mountpoint : ∀ id node, vfs.nodes.get id = some node → vfs.getDelegate id = some .ramdisk →
    node.type = .mountpoint → node.physFsID = 0
  child : ∀ id node, vfs.nodes.get id = some node → vfs.getDelegate id = some .ramdisk →
    ∀ c child, vfs.nodes.get c = some child → child.parent = some id → c ≠ Vfs.mountRoot →
      child.delegate = none ∧ ∃ name entry, child.name = some name ∧
        ramdisk.childOf node.physFsID name = some entry ∧ child.physFsID = entry.id

section Mirror

variable {ramdisk : Ramdisk} {vfs : Vfs}
variable {entry : RamdiskEntry} {id : Nat} {node : FsNode}

theorem WellNumbered.findById_id (h : WellNumbered ramdisk) (hEntry : entry ∈ ramdisk.headers) :
    ∃ found, ramdisk.findById entry.id = some found ∧ found.id = entry.id := by
  have hWrap : wrap32 entry.id = entry.id := wrap32_of_lt (h.ids entry hEntry)
  rw [findById, hWrap]
  split
  · rename_i hZero
    exact ⟨ramdisk.root, rfl, by rw [h.root, hZero]⟩
  · cases hFind : ramdisk.headers.find? fun current => current.id = entry.id with
    | none =>
      have hNone := List.find?_eq_none.mp hFind entry hEntry
      simp at hNone
    | some found => exact ⟨found, rfl, by simpa using List.find?_some hFind⟩

/-- What a discovery asks the ramdisk for is the child of the mirrored entry. -/
theorem Mirrors.entryBelow_eq (hTree : WellNumbered ramdisk) (h : Mirrors ramdisk vfs)
    (hNode : vfs.nodes.get id = some node)
    (hServed : vfs.getDelegate id = some .ramdisk) (name : CString) :
    entryBelow ramdisk node name =
      if ramdisk.headers = [] then .error .nullPointer
      else .ok (ramdisk.childOf node.physFsID name) := by
  have hParent : ∃ entry, (if node.type = .mountpoint then some ramdisk.root
      else ramdisk.findById node.physFsID) = some entry ∧ entry.id = node.physFsID := by
    split
    · rename_i hType
      exact ⟨ramdisk.root, rfl, by rw [hTree.root, h.mountpoint id node hNode hServed hType]⟩
    · exact h.backed id node hNode hServed
  obtain ⟨entry, hEntry, hId⟩ := hParent
  have hFind := @Ramdisk.findChildOf_eq ramdisk entry name
  rw [findChildOf, bind_some, hId] at hFind
  rw [entryBelow, hEntry]
  dsimp only
  rw [hFind]
  by_cases hEmpty : ramdisk.headers = []
  · simp [hEmpty]
  · simp [hEmpty]

theorem Mirrors.isSome_root (h : Mirrors ramdisk vfs) : (vfs.nodes.get Vfs.root).isSome := by
  obtain ⟨root, hRoot, -⟩ := h.root
  exact isSome_of_eq_some hRoot

/-- The node of an entry that was found on the ramdisk agrees with it. -/
theorem Mirrors.discovered (hTree : WellNumbered ramdisk) (h : Mirrors ramdisk vfs)
    (hNode : vfs.nodes.get id = some node)
    (hEntry : ramdisk.childOf node.physFsID entry.name = some entry) :
    Mirrors ramdisk (createVfsNode vfs entry id).2 := by
  have hSome := isSome_of_eq_some hNode
  have hMember := (mem_of_childOf hEntry).1
  constructor
  · exact h.valid.insert hSome
  · obtain ⟨root, hRoot, hDelegate, hId⟩ := h.root
    exact ⟨_, Vfs.get_insert_old h.valid hSome hRoot, by rwa [Vfs.delegate_linked],
      by rwa [Vfs.physFsID_linked]⟩
  · obtain ⟨mount, hMount, hName, hUp⟩ := h.mountRoot
    exact ⟨_, Vfs.get_insert_old h.valid hSome hMount, by rwa [Vfs.name_linked],
      by rwa [Vfs.parent_linked]⟩
  · intro i new hGet hServed
    obtain ⟨rfl, rfl⟩ | ⟨old, hOld, rfl⟩ := Vfs.get_insert_cases h.valid hSome hGet
    · exact hTree.findById_id hMember
    · rw [createVfsNode, h.valid.getDelegate_insert hSome hOld] at hServed
      simpa using h.backed i old hOld hServed
  · intro i new hGet hServed hType
    obtain ⟨rfl, rfl⟩ | ⟨old, hOld, rfl⟩ := Vfs.get_insert_cases h.valid hSome hGet
    · split at hType <;> cases hType
    · rw [createVfsNode, h.valid.getDelegate_insert hSome hOld] at hServed
      rw [Vfs.type_linked] at hType
      rw [Vfs.physFsID_linked, h.mountpoint i old hOld hServed hType]
  · intro i new hGet hServed c child hChild hParent hMount
    obtain ⟨rfl, rfl⟩ | ⟨oldChild, hOldChild, rfl⟩ := Vfs.get_insert_cases h.valid hSome hChild
    · cases hParent
      rw [createVfsNode, Vfs.get_insert_old h.valid hSome hNode] at hGet
      cases hGet
      exact ⟨rfl, entry.name, entry, rfl, by rwa [Vfs.physFsID_linked], rfl⟩
    · rw [Vfs.parent_linked] at hParent
      obtain ⟨old, hOld⟩ :=
        isSome_iff_exists.mp (h.valid.parent c oldChild hOldChild i hParent).2
      rw [createVfsNode, Vfs.get_insert_old h.valid hSome hOld] at hGet
      cases hGet
      rw [createVfsNode, h.valid.getDelegate_insert hSome hOld] at hServed
      simpa using h.child i old hOld hServed c oldChild hOldChild hParent hMount

theorem Mirrors.of_findChild (h : Mirrors ramdisk vfs) {c : Nat}
    (hNode : vfs.nodes.get id = some node) (hServed : vfs.getDelegate id = some .ramdisk)
    {name : CString} (hMount : id = Vfs.root → name ≠ mountName)
    (hFind : vfs.findChild id name = some c) :
    ∃ child entry, vfs.nodes.get c = some child ∧ vfs.getDelegate c = some .ramdisk ∧ c ≠ Vfs.root ∧
      ramdisk.childOf node.physFsID name = some entry ∧ child.physFsID = entry.id := by
  rw [Vfs.findChild, hNode] at hFind
  obtain ⟨child, hChild, hParent⟩ :=
    h.valid.child id node hNode c (List.mem_of_find?_eq_some hFind)
  have hName : child.name = some name := by
    have hHas := List.find?_some hFind
    rw [Vfs.hasName, hChild] at hHas
    simpa using hHas
  have hNotMount : c ≠ Vfs.mountRoot := by
    rintro rfl
    obtain ⟨mount, hGet, hMountName, hUp⟩ := h.mountRoot
    obtain rfl : mount = child := some.inj (hGet.symm.trans hChild)
    rw [hUp] at hParent
    rw [hMountName] at hName
    exact hMount (some.inj hParent).symm (some.inj hName).symm
  obtain ⟨hDelegate, own, entry, hOwn, hEntry, hId⟩ :=
    h.child id node hNode hServed c child hChild hParent hNotMount
  obtain rfl : own = name := some.inj (hOwn.symm.trans hName)
  refine ⟨child, entry, hChild, ?_, ?_, hEntry, hId⟩
  · rw [h.valid.getDelegate_eq hChild, hDelegate, hParent]
    exact hServed
  · have hLt := (h.valid.parent c child hChild id hParent).1
    intro hRoot
    rw [hRoot] at hLt
    exact Nat.not_lt_zero _ hLt

theorem RamdiskTree.plain_of_lookup (hTree : RamdiskTree ramdisk) {folder : RamdiskEntry}
    {names : List CString} (hLookup : ramdisk.lookup entry names = some folder) :
    ∀ name ∈ names, name ≠ [dot] ∧ name ≠ [dot, dot] := by
  induction names generalizing entry with
  | nil => exact List.forall_mem_nil _
  | cons name rest ih =>
    obtain ⟨next, hNext, hRest⟩ := bind_eq_some_iff.mp hLookup
    obtain ⟨hMember, -, rfl⟩ := mem_of_childOf hNext
    exact List.forall_mem_cons.mpr ⟨hTree.names next hMember, ih hRest⟩

/-- The pass over a path of ordinary names that are on the ramdisk leads to a node of the entry
at their end. -/
theorem Mirrors.resolve_lookup (hNumbered : WellNumbered ramdisk) (h : Mirrors ramdisk vfs)
    {folder : RamdiskEntry} (hNode : vfs.nodes.get id = some node)
    (hServed : vfs.getDelegate id = some .ramdisk) (hId : node.physFsID = entry.id)
    {names : List CString} (hPlain : ∀ name ∈ names, name ≠ [dot] ∧ name ≠ [dot, dot])
    (hMount : id = Vfs.root → names.head? ≠ some mountName)
    (hLookup : ramdisk.lookup entry names = some folder) :
    ∃ vfs' last content, Mirrors ramdisk vfs' ∧ vfs'.nodes.get last = some content ∧
      vfs'.getDelegate last = some .ramdisk ∧ content.physFsID = folder.id ∧
      (∀ rest, resolve ramdisk vfs id (names ++ rest) = resolve ramdisk vfs' last rest) ∧
      (vfs'.walk id names).child = some last ∧ (last = Vfs.root → id = Vfs.root ∧ names = []) ∧
      ∀ i name c, (vfs.nodes.get i).isSome → vfs.findChild i name = some c →
        (vfs'.nodes.get i).isSome ∧ vfs'.findChild i name = some c := by
  induction names generalizing vfs id node entry with
  | nil =>
    cases hLookup
    exact ⟨vfs, id, node, h, hNode, hServed, hId, fun _ => rfl, rfl, fun hRoot => ⟨hRoot, rfl⟩,
      fun _ _ _ hSome hFind => ⟨hSome, hFind⟩⟩
  | cons name rest ih =>
    rw [lookup, ← hId] at hLookup
    obtain ⟨next, hNext, hRest⟩ := bind_eq_some_iff.mp hLookup
    obtain ⟨hMember, -, hName⟩ := mem_of_childOf hNext
    obtain ⟨⟨hDot, hUp⟩, hPlain⟩ := List.forall_mem_cons.mp hPlain
    have hNotMount : id = Vfs.root → name ≠ mountName := fun hRoot hEq =>
      hMount hRoot (congrArg some hEq)
    cases hFind : vfs.findChild id name with
    | some c =>
      obtain ⟨child, found, hChild, hDelegate, hNotRoot, hFound, hChildId⟩ :=
        h.of_findChild hNode hServed hNotMount hFind
      obtain rfl : found = next := some.inj (hFound.symm.trans hNext)
      obtain ⟨vfs', last, content, hMirrors, hGet, hLast, hFolder, hResolve, hWalk, hTop, hKeeps⟩ :=
        ih h hChild hDelegate hChildId hPlain (fun hRoot => absurd hRoot hNotRoot) hRest
      refine ⟨vfs', last, content, hMirrors, hGet, hLast, hFolder, fun more => ?_, ?_,
        fun hRoot => absurd (hTop hRoot).1 hNotRoot, hKeeps⟩
      · rw [List.cons_append, resolve, Vfs.step_eq_findChild hUp hDot, hFind]
        exact hResolve more
      · rw [Vfs.walk, Vfs.step_eq_findChild hUp hDot,
          (hKeeps id name c (isSome_of_eq_some hNode) hFind).2]
        exact hWalk
    | none =>
      have hSome := isSome_of_eq_some hNode
      have hHeaders : ramdisk.headers ≠ [] := List.ne_nil_of_mem hMember
      have hBelow := h.entryBelow_eq hNumbered hNode hServed name
      rw [if_neg hHeaders, hNext] at hBelow
      have hEntry : ramdisk.childOf node.physFsID next.name = some next := by rw [hName]; exact hNext
      have hNew : (createVfsNode vfs next id).2.nodes.get vfs.nodeNextID = some _ :=
        Vfs.get_insert_new h.valid hSome
      have hDelegate : (createVfsNode vfs next id).2.getDelegate vfs.nodeNextID =
          some .ramdisk := by
        rw [createVfsNode, h.valid.getDelegate_insert_new hSome]
        exact hServed
      have hNotRoot : vfs.nodeNextID ≠ Vfs.root := Nat.ne_zero_of_lt (h.valid.lt_next id node hNode)
      rw [← hName] at hFind
      have hExtends : ∀ i other c, (vfs.nodes.get i).isSome → vfs.findChild i other = some c →
          ((createVfsNode vfs next id).2.nodes.get i).isSome ∧
            (createVfsNode vfs next id).2.findChild i other = some c := fun i other c hi hOther =>
        ⟨Vfs.isSome_get_insert h.valid hSome hi,
          Vfs.findChild_insert_old h.valid hSome hFind hOther⟩
      obtain ⟨vfs', last, content, hMirrors, hGet, hLast, hFolder, hResolve, hWalk, hTop, hKeeps⟩ :=
        ih (h.discovered hNumbered hNode hEntry) hNew hDelegate rfl hPlain
          (fun hRoot => absurd hRoot hNotRoot) hRest
      have hMade : (createVfsNode vfs next id).2.findChild id name = some vfs.nodeNextID := by
        rw [← hName, createVfsNode, Vfs.findChild_insert_new h.valid hSome]
      refine ⟨vfs', last, content, hMirrors, hGet, hLast, hFolder, fun more => ?_, ?_,
        fun hRoot => absurd (hTop hRoot).1 hNotRoot, fun i other c hi hOther => ?_⟩
      · have hNodeById : vfs.getNodeById id = some node := hNode
        rw [hName] at hFind
        rw [List.cons_append, resolve_missing _ (Vfs.step_eq_none.mpr ⟨hUp, hDot, hFind⟩),
          if_neg (not_not.mpr hServed), hNodeById, map_some, hBelow]
        exact hResolve more
      · rw [Vfs.walk, Vfs.step_eq_findChild hUp hDot,
          (hKeeps id name vfs.nodeNextID (Vfs.isSome_get_insert h.valid hSome hSome) hMade).2]
        exact hWalk
      · obtain ⟨hi, hOther⟩ := hExtends i other c hi hOther
        exact hKeeps i other c hi hOther

/-- The nodes at the start: no entry has a node of its own yet. -/
theorem initial_mirrors (hTree : RamdiskTree ramdisk) : Mirrors ramdisk Vfs.initial := by
  have hBounds : ∀ i node, Vfs.initial.nodes.get i = some node → i < 4 := Vfs.initial_valid.lt_next
  have hRootEntry : ∃ entry, ramdisk.findById 0 = some entry ∧ entry.id = 0 :=
    ⟨ramdisk.root, rfl, hTree.root⟩
  constructor
  · exact Vfs.initial_valid
  · exact ⟨_, rfl, rfl, rfl⟩
  · exact ⟨_, rfl, rfl, rfl⟩
  · intro i node hNode _
    have hLt := hBounds i node hNode
    interval_cases i <;> cases hNode <;> exact hRootEntry
  · intro i node hNode _ _
    have hLt := hBounds i node hNode
    interval_cases i <;> cases hNode <;> rfl
  · intro i node hNode hServed c child hChild hParent hMount
    have hLt := hBounds c child hChild
    interval_cases c <;> cases hChild <;> cases hParent
    · exact absurd rfl hMount
    · exact absurd hServed (by decide)
    · exact absurd hServed (by decide)

end Mirror

def folderAt (names : List CString) : Option RamdiskEntry :=
  (ramdisk.lookup ramdisk.root names).filter fun entry => entry.type = .folder

/-- An entry is the one and only new one, it has the name and the folder that were
asked for, and both ways to look up its path lead to it. -/
structure Created (before after : FileSystem) (path : CString) (folder : RamdiskEntry) (last : CString)
    (new : RamdiskEntry) : Prop where
  headers : after.ramdisk.headers = new :: before.ramdisk.headers
  name : new.name = last
  parent : new.parentid = folder.id
  discovered : ∃ vfs id node, resolve after.ramdisk after.vfs Vfs.root (components path) =
    (vfs, .found id) ∧ vfs.getNodeById id = some node ∧ after.entryOf node = some new
  found : after.ramdisk.findAbsolute path = some (some new)

/-- The call comes to an end. If the folder of its path exists and the call
succeeds, it has created the entry; if the folder is missing, the call fails and
creates nothing. -/
def CreatesAsAsked (fs : FileSystem) (pid : Pid) (workingDirectory : CString) (data : SyscallFsOpen) :
    Prop :=
  ∀ folders last, components (concatAsAbsolutePath workingDirectory data.path) = folders ++ [last] →
    ∃ next result, fsOpen fs pid workingDirectory data = .ok (next, result) ∧
      match folderAt fs.ramdisk folders with
      | some folder => result.status = .successful → ∃ new,
          Created fs next (concatAsAbsolutePath workingDirectory data.path) folder last new
      | none => result.status ≠ .successful ∧ next.ramdisk = fs.ramdisk

/-- The call names a file by its last component alone, in a folder that exists.
The path fits into the buffer of `findAbsolute`, and the next identifier is not
that of the root. -/
def NamesFileInFolder (fs : FileSystem) (workingDirectory : CString) (data : SyscallFsOpen) : Prop :=
  ∃ folders, components (concatAsAbsolutePath workingDirectory data.path) = folders ++ [data.path] ∧
    (folderAt fs.ramdisk folders).isSome ∧
    (concatAsAbsolutePath workingDirectory data.path).length < maximumPathLength ∧
    fs.ramdisk.nextUnusedId ≠ 0

section Create

variable {fs : FileSystem} {pid : Pid} {workingDirectory path : CString} {data : SyscallFsOpen}
variable {vfs : Vfs} {parent : Nat} {folder : RamdiskEntry} {ramdisk : Ramdisk}
variable {folders : List CString} {last : CString}

/-- A call with the flag makes an entry below the last node that was found. -/
theorem fsOpen_missing (hTarget : concatAsAbsolutePath workingDirectory data.path = path)
    (hFits : path.length < pathMax) (hValid : fs.vfs.Valid)
    (hRoot : (fs.vfs.nodes.get Vfs.root).isSome) (hFlag : creates data.flags) {vfs : Vfs} {parent : Nat}
    (hResolve : resolve fs.ramdisk fs.vfs Vfs.root (components path) = (vfs, .missing parent)) :
    ∃ node, vfs.Valid ∧ vfs.nodes.get parent = some node ∧ vfs.getDelegate parent = some .ramdisk ∧
      match fs.ramdisk.findById node.physFsID with
      | none => fsOpen fs pid workingDirectory data = .error .nullPointer
      | some entry => ∃ next result, fsOpen fs pid workingDirectory data = .ok (next, result) ∧
          result.status = .successful ∧ next.ramdisk = (fs.ramdisk.createChild entry data.path).2 ∧
          next.vfs = (createVfsNode vfs (fs.ramdisk.createChild entry data.path).1 parent).2 := by
  have hServed : (resolve fs.ramdisk fs.vfs Vfs.root (components path)).2 ≠ .elsewhere := by
    rw [hResolve]
    exact nofun
  rcases @fsOpen_cases pid fs workingDirectory data path hTarget hFits hValid hRoot hServed with
    ⟨target, -, -, hFound, -⟩ | ⟨-, hWaited⟩
  · rw [hResolve] at hFound
    cases hFound
  · rw [hResolve] at hWaited
    cases hWaited with
    | missing vfs parent transaction transactions hVfs hDelegate hSome hResult =>
      obtain ⟨node, hNode⟩ := isSome_iff_exists.mp hSome
      refine ⟨node, hVfs, hNode, hDelegate, ?_⟩
      have hOpen := @openOnce_missing pid { fs with vfs := vfs, transactions := transactions }
        parent node data hDelegate hNode hVfs
      rw [if_pos hFlag] at hOpen
      rw [hResult]
      cases hEntry : fs.ramdisk.findById node.physFsID with
      | none =>
        rw [hEntry] at hOpen
        rw [hOpen]
        rfl
      | some entry =>
        rw [hEntry] at hOpen
        obtain ⟨next, hOk, -, hRamdisk, hNextVfs⟩ := hOpen
        rw [hOk]
        exact ⟨_, _, rfl, rfl, hRamdisk, hNextVfs⟩

theorem resolve_nil_ne_missing {vfs' : Vfs} {id : Nat} :
    resolve ramdisk vfs id [] ≠ (vfs', .missing parent) := by
  rw [resolve]
  split <;> simp

/-- A path that does not fit is written behind the buffer. -/
theorem fsOpen_long (hTarget : concatAsAbsolutePath workingDirectory data.path = path)
    (hLong : ¬path.length < pathMax) :
    fsOpen fs pid workingDirectory data = .error .bufferOverflow := by
  rw [fsOpen, hTarget]
  exact if_pos (Nat.not_lt.mp hLong)

/-- A path whose folder is on the ramdisk is missing only in its last component. -/
theorem resolve_in_folder (hTree : RamdiskTree fs.ramdisk) (hMirrors : Mirrors fs.ramdisk fs.vfs)
    (hPath : components path = folders ++ [last])
    (hMount : (components path).head? ≠ some mountName)
    (hFolder : fs.ramdisk.lookup fs.ramdisk.root folders = some folder)
    (hResolve : resolve fs.ramdisk fs.vfs Vfs.root (components path) = (vfs, .missing parent)) :
    ∃ node, Mirrors fs.ramdisk vfs ∧ vfs.nodes.get parent = some node ∧
      vfs.getDelegate parent = some .ramdisk ∧ node.physFsID = folder.id ∧
      (vfs.walk Vfs.root folders).child = some parent ∧ vfs.step parent last = none ∧
      fs.ramdisk.childOf folder.id last = none := by
  obtain ⟨root, hRoot, hDelegate, hRootId⟩ := hMirrors.root
  have hServed : fs.vfs.getDelegate Vfs.root = some .ramdisk := by
    rw [hMirrors.valid.getDelegate_eq hRoot, hDelegate]
    rfl
  have hHead : folders.head? ≠ some mountName := by
    rw [hPath] at hMount
    cases folders with
    | nil => exact nofun
    | cons first rest => exact hMount
  obtain ⟨vfs', last', content, hMirrors', hGet, hLast, hId, hRest, hWalk, -⟩ :=
    hMirrors.resolve_lookup hTree.numbered hRoot hServed (hRootId.trans hTree.root.symm)
      (hTree.plain_of_lookup hFolder) (fun _ => hHead) hFolder
  rw [hPath, hRest] at hResolve
  rw [resolve] at hResolve
  split at hResolve
  · exact absurd hResolve resolve_nil_ne_missing
  · rename_i hStep
    have hNodeById : vfs'.getNodeById last' = some content := hGet
    rw [if_neg (not_not.mpr hLast), hNodeById, map_some,
      hMirrors'.entryBelow_eq hTree.numbered hGet hLast] at hResolve
    by_cases hHeaders : fs.ramdisk.headers = []
    · rw [if_pos hHeaders] at hResolve
      cases hResolve
    · rw [if_neg hHeaders, hId] at hResolve
      cases hChild : fs.ramdisk.childOf folder.id last with
      | some entry =>
        rw [hChild] at hResolve
        exact absurd hResolve resolve_nil_ne_missing
      | none =>
        rw [hChild] at hResolve
        cases hResolve
        exact ⟨content, hMirrors', hGet, hLast, hId, hWalk, hStep, rfl⟩

/-- The created entry is the one that was asked for just if it has the last component as its name,
the path fits into the buffer and its number is not the one of the root. -/
theorem created_iff (hTree : RamdiskTree fs.ramdisk)
    (hPath : components path = folders ++ [last]) {entry : RamdiskEntry}
    (hFolder : fs.ramdisk.lookup fs.ramdisk.root folders = some folder) (hId : entry.id = folder.id)
    {node : FsNode} (hMirrors : Mirrors fs.ramdisk vfs)
    (hNode : vfs.nodes.get parent = some node) (hDelegate : vfs.getDelegate parent = some .ramdisk)
    (hWalk : (vfs.walk Vfs.root folders).child = some parent) (hStep : vfs.step parent last = none)
    (hChild : fs.ramdisk.childOf folder.id last = none) {next : FileSystem} {filename : CString}
    (hRamdisk : next.ramdisk = (fs.ramdisk.createChild entry filename).2)
    (hVfs : next.vfs = (createVfsNode vfs (fs.ramdisk.createChild entry filename).1 parent).2) :
    (∃ new, Created fs next path folder last new) ↔
      filename = last ∧ path.length < maximumPathLength ∧ fs.ramdisk.nextUnusedId ≠ 0 := by
  have hNew : ∀ new, next.ramdisk.headers = new :: fs.ramdisk.headers →
      new = (fs.ramdisk.createChild entry filename).1 := by
    intro new hHeaders
    rw [hRamdisk] at hHeaders
    exact (List.cons.inj hHeaders).1.symm
  have hRootEntry : next.ramdisk.root = fs.ramdisk.root := by rw [hRamdisk]; rfl
  have hSome := isSome_of_eq_some hNode
  -- The discovery of the path now ends at the new node.
  have hDiscovered : filename = last → resolve next.ramdisk next.vfs Vfs.root (components path) =
      (next.vfs, .found vfs.nodeNextID) := by
    intro hName
    have hFound : (next.vfs.walk Vfs.root (components path)).child = some vfs.nodeNextID := by
      rw [hVfs, hPath]
      exact walk_createVfsNode hMirrors.valid hMirrors.isSome_root hSome hStep hName hWalk
    have hServes : next.vfs.getDelegate vfs.nodeNextID = some .ramdisk := by
      rw [hVfs, createVfsNode, hMirrors.valid.getDelegate_insert_new hSome]
      exact hDelegate
    have hEnds := @resolve_append next.ramdisk next.vfs Vfs.root vfs.nodeNextID (components path) []
      hFound
    rw [List.append_nil, resolve, if_pos hServes] at hEnds
    exact hEnds
  have hNodeById : next.vfs.getNodeById vfs.nodeNextID =
      some ⟨none, .file, vfs.nodeNextID, fs.ramdisk.nextUnusedId, some filename, some parent, []⟩ := by
    rw [hVfs, Vfs.getNodeById, createVfsNode, Vfs.get_insert_new hMirrors.valid hSome]
    rfl
  have hEntry : next.ramdisk.findById fs.ramdisk.nextUnusedId =
      if fs.ramdisk.nextUnusedId = 0 then some fs.ramdisk.root
      else some (fs.ramdisk.createChild entry filename).1 := by
    rw [findById, wrap32_of_lt hTree.counter, hRamdisk, createChild]
    split
    · rfl
    · rw [List.find?_cons_of_pos (by simp)]
  constructor
  · rintro ⟨new, hHeaders, hName, -, ⟨vfs', id, found, hResolve, hGet, hOf⟩, hAbsolute⟩
    obtain rfl := hNew new hHeaders
    have hLast : filename = last := hName
    rw [hDiscovered hLast] at hResolve
    cases hResolve
    rw [hNodeById] at hGet
    cases hGet
    refine ⟨hLast, (findAbsolute_eq_iff.mp hAbsolute).1, fun hZero => ?_⟩
    rw [entryOf, hEntry, if_pos hZero] at hOf
    have hType := congrArg RamdiskEntry.type (some.inj hOf)
    rw [hTree.folder] at hType
    cases hType
  · rintro ⟨rfl, hShort, hCounter⟩
    rw [← hId] at hChild
    refine ⟨(fs.ramdisk.createChild entry filename).1, ?_, rfl, hId, ?_, ?_⟩
    · rw [hRamdisk]
      rfl
    · refine ⟨next.vfs, vfs.nodeNextID, _, hDiscovered rfl, hNodeById, ?_⟩
      rw [entryOf, hEntry, if_neg hCounter]
    · rw [findAbsolute_eq_iff, and_iff_right hShort, hRootEntry, hPath, hRamdisk,
        lookup_append, lookup_createChild hChild hFolder, bind_some,
        lookup, childOf_createChild, if_pos ⟨hId, rfl⟩]
      rfl

theorem folderAt_eq_some {names : List CString}
    (h : folderAt ramdisk names = some folder) : ramdisk.lookup ramdisk.root names = some folder :=
  (filter_eq_some_iff.mp h).1

end Create

/-- What a lookup reads of an entry. -/
def entryKey (entry : RamdiskEntry) : Nat × Nat × CString := (entry.id, entry.parentid, entry.name)

/-- Two ramdisks that differ in the data of their entries only. -/
structure SameTree (first second : Ramdisk) : Prop where
  rootId : second.root.id = first.root.id
  rootType : second.root.type = first.root.type
  counter : second.nextUnusedId = first.nextUnusedId
  headers : second.headers.map entryKey = first.headers.map entryKey

namespace SameTree

variable {first second third : Ramdisk} {vfs : Vfs} {entry : RamdiskEntry} {id : Nat}

theorem refl (ramdisk : Ramdisk) : SameTree ramdisk ramdisk := ⟨rfl, rfl, rfl, rfl⟩

theorem trans (left : SameTree first second) (right : SameTree second third) : SameTree first third :=
  ⟨right.rootId.trans left.rootId, right.rootType.trans left.rootType,
    right.counter.trans left.counter, right.headers.trans left.headers⟩

section

variable (h : SameTree first second)

include h

theorem find (test : Nat × Nat × CString → Bool) :
    (second.headers.find? (test ∘ entryKey)).map entryKey =
      (first.headers.find? (test ∘ entryKey)).map entryKey := by
  rw [← List.find?_map, ← List.find?_map, h.headers]

theorem exists_of_find (test : Nat × Nat × CString → Bool)
    (hEntry : first.headers.find? (test ∘ entryKey) = some entry) :
    ∃ found, second.headers.find? (test ∘ entryKey) = some found ∧ found.id = entry.id := by
  have hFind := h.find test
  rw [hEntry] at hFind
  obtain ⟨found, hFound, hKey⟩ := map_eq_some_iff.mp hFind
  exact ⟨found, hFound, congrArg Prod.fst hKey⟩

theorem exists_childOf {name : CString} (hEntry : first.childOf id name = some entry) :
    ∃ found, second.childOf id name = some found ∧ found.id = entry.id :=
  h.exists_of_find (fun key => key.2.1 = id ∧ key.2.2 = name) hEntry

theorem exists_findById (hEntry : first.findById id = some entry) :
    ∃ found, second.findById id = some found ∧ found.id = entry.id := by
  rw [findById] at hEntry ⊢
  split at hEntry
  · rename_i hZero
    cases hEntry
    rw [if_pos hZero]
    exact ⟨second.root, rfl, h.rootId⟩
  · rename_i hZero
    rw [if_neg hZero]
    exact h.exists_of_find (fun key => key.1 = wrap32 id) hEntry

theorem ramdiskTree (hTree : RamdiskTree first) : RamdiskTree second := by
  have hOld : ∀ entry ∈ second.headers, ∃ old ∈ first.headers, old.id = entry.id ∧
      old.name = entry.name := by
    intro entry hEntry
    have hKey : entryKey entry ∈ first.headers.map entryKey := by
      rw [← h.headers]
      exact List.mem_map_of_mem hEntry
    obtain ⟨old, hMem, hSame⟩ := List.mem_map.mp hKey
    exact ⟨old, hMem, congrArg Prod.fst hSame, congrArg (fun key => key.2.2) hSame⟩
  refine ⟨h.rootId.trans hTree.root, h.rootType.trans hTree.folder, fun entry hEntry => ?_,
    by rw [h.counter]; exact hTree.counter, fun entry hEntry => ?_⟩
  · obtain ⟨old, hMem, hId, -⟩ := hOld entry hEntry
    rw [← hId]
    exact hTree.ids old hMem
  · obtain ⟨old, hMem, -, hName⟩ := hOld entry hEntry
    rw [← hName]
    exact hTree.names old hMem

theorem mirrors (hMirrors : Mirrors first vfs) : Mirrors second vfs where
  valid := hMirrors.valid
  root := hMirrors.root
  mountRoot := hMirrors.mountRoot
  backed id node hNode hServed := by
    obtain ⟨entry, hEntry, hId⟩ := hMirrors.backed id node hNode hServed
    obtain ⟨found, hFound, hSame⟩ := h.exists_findById hEntry
    exact ⟨found, hFound, hSame.trans hId⟩
  mountpoint := hMirrors.mountpoint
  child id node hNode hServed c child hChild hParent hMount := by
    obtain ⟨hDelegate, name, entry, hName, hEntry, hId⟩ :=
      hMirrors.child id node hNode hServed c child hChild hParent hMount
    obtain ⟨found, hFound, hSame⟩ := h.exists_childOf hEntry
    exact ⟨hDelegate, name, found, hName, hFound, hId.trans hSame.symm⟩

end

theorem truncated (ramdisk : Ramdisk) (id : Nat) (flags : BitVec 32) :
    SameTree ramdisk (ramdisk.modifyById id (truncate flags)) := by
  have hKey : ∀ entry, entryKey (truncate flags entry) = entryKey entry ∧
      (truncate flags entry).type = entry.type := by
    intro entry
    rw [truncate]
    split <;> exact ⟨rfl, rfl⟩
  have hChange : ∀ headers : List RamdiskEntry,
      (changeFirst (wrap32 id) (truncate flags) headers).map entryKey =
        headers.map entryKey := by
    intro headers
    induction headers with
    | nil => rfl
    | cons current next ih =>
      rw [changeFirst]
      split
      · rw [List.map_cons, List.map_cons, (hKey current).1]
      · rw [List.map_cons, List.map_cons, ih]
  rw [modifyById]
  split
  · exact ⟨congrArg Prod.fst (hKey ramdisk.root).1, (hKey ramdisk.root).2, rfl, rfl⟩
  · exact ⟨rfl, rfl, rfl, hChange ramdisk.headers⟩

end SameTree

section Reading

variable {fs next : FileSystem} {pid : Pid} {data result : SyscallFsOpen}
variable {ramdisk : Ramdisk} {vfs : Vfs}

theorem Mirrors.resolve (hTree : RamdiskTree ramdisk)
    (h : Mirrors ramdisk vfs) {id : Nat} (hSome : (vfs.nodes.get id).isSome) (names : List CString) :
    Mirrors ramdisk (resolve ramdisk vfs id names).1 := by
  induction names generalizing vfs id with
  | nil => exact h
  | cons name rest ih =>
    rw [FileSystem.resolve]
    split
    · exact ih h (h.valid.isSome_step hSome ‹_›)
    · split
      · exact h
      · rename_i hServed
        obtain ⟨node, hNode⟩ := isSome_iff_exists.mp hSome
        have hGet : vfs.getNodeById id = some node := hNode
        have hBelow := h.entryBelow_eq hTree.numbered hNode (not_not.mp hServed) name
        rw [hGet, map_some, hBelow]
        by_cases hHeaders : ramdisk.headers = []
        · rw [if_pos hHeaders]
          exact h
        · rw [if_neg hHeaders]
          cases hEntry : ramdisk.childOf node.physFsID name with
          | none => exact h
          | some entry =>
            obtain ⟨-, -, hName⟩ := mem_of_childOf hEntry
            refine ih (h.discovered hTree.numbered hNode (by rw [hName]; exact hEntry)) ?_
            rw [createVfsNode, Vfs.get_insert_new h.valid hSome]
            rfl

theorem openOnce_sameTree {target : Nat} {node : FsNode}
    (hDelegate : fs.vfs.getDelegate target = some .ramdisk)
    (hNode : fs.vfs.getNodeById target = some node)
    (h : openOnce pid fs .successful target data = .ok (next, result)) :
    next.vfs = fs.vfs ∧ SameTree fs.ramdisk next.ramdisk := by
  refine ⟨openOnce_vfs hDelegate h, ?_⟩
  rw [openOnce_found data hDelegate hNode] at h
  split at h
  · cases h
  · split at h
    · cases h
      exact SameTree.refl _
    · cases h
      exact SameTree.truncated _ _ _

theorem openTwice_sameTree {target : Nat} {node : FsNode}
    (hDelegate : fs.vfs.getDelegate target = some .ramdisk)
    (hNode : fs.vfs.getNodeById target = some node)
    (h : openTwice pid fs target data = .ok (next, result)) :
    next.vfs = fs.vfs ∧ SameTree fs.ramdisk next.ramdisk := by
  rw [openTwice] at h
  cases hOpen : openOnce pid fs .successful target data with
  | error stop =>
    rw [hOpen] at h
    cases h
  | ok answer =>
    rw [hOpen] at h
    obtain ⟨hVfs, hSame⟩ := openOnce_sameTree hDelegate hNode hOpen
    rw [← hVfs] at hDelegate hNode
    obtain ⟨hNextVfs, hNextSame⟩ := openOnce_sameTree hDelegate hNode h
    exact ⟨hNextVfs.trans hVfs, hSame.trans hNextSame⟩

/-- The ramdisk is a tree, and the nodes mirror it. -/
structure Mirrored (fs : FileSystem) : Prop where
  tree : RamdiskTree fs.ramdisk
  mirrors : Mirrors fs.ramdisk fs.vfs

theorem Mirrored.of_sameTree (hTree : RamdiskTree ramdisk)
    (hMirrors : Mirrors ramdisk vfs) (h : next.vfs = vfs ∧ SameTree ramdisk next.ramdisk) :
    Mirrored next :=
  ⟨h.2.ramdiskTree hTree, by rw [h.1]; exact h.2.mirrors hMirrors⟩

/-- A file that is new on the ramdisk and its node agree. -/
theorem Mirrors.created {ramdisk : Ramdisk} {vfs : Vfs} (hTree : RamdiskTree ramdisk)
    (h : Mirrors ramdisk vfs) {id : Nat} {node : FsNode} (hNode : vfs.nodes.get id = some node)
    {entry : RamdiskEntry} (hId : entry.id = node.physFsID) {filename : CString}
    (hStep : vfs.step id filename = none) (hChild : ramdisk.childOf node.physFsID filename = none) :
    RamdiskTree (ramdisk.createChild entry filename).2 ∧
      Mirrors (ramdisk.createChild entry filename).2
        (createVfsNode vfs (ramdisk.createChild entry filename).1 id).2 := by
  have hNewTree : RamdiskTree (ramdisk.createChild entry filename).2 := by
    refine ⟨hTree.root, hTree.folder, fun other hOther => ?_, wrap32_lt _, fun other hOther => ?_⟩
    · rcases List.mem_cons.mp hOther with rfl | hOld
      · exact hTree.counter
      · exact hTree.ids other hOld
    · rcases List.mem_cons.mp hOther with rfl | hOld
      · obtain ⟨hUp, hDot, -⟩ := Vfs.step_eq_none.mp hStep
        exact ⟨hDot, hUp⟩
      · exact hTree.names other hOld
  have hMirrors : Mirrors (ramdisk.createChild entry filename).2 vfs := by
    refine ⟨h.valid, h.root, h.mountRoot, fun i content hContent hServed => ?_, h.mountpoint,
      fun i content hContent hServed c child hGet hParent hMount => ?_⟩
    · obtain ⟨found, hFound, hSame⟩ := h.backed i content hContent hServed
      rw [findById] at hFound ⊢
      split at hFound
      · rename_i hZero
        rw [if_pos hZero]
        exact ⟨ramdisk.root, rfl, by cases hFound; exact hSame⟩
      · rename_i hZero
        rw [if_neg hZero]
        by_cases hCollides : ramdisk.nextUnusedId = wrap32 content.physFsID
        · refine ⟨(ramdisk.createChild entry filename).1, ?_, ?_⟩
          · rw [createChild, List.find?_cons_of_pos (by simpa using hCollides)]
          · have hWrap : found.id = wrap32 content.physFsID := by simpa using List.find?_some hFound
            rw [← hSame, hWrap]
            exact hCollides
        · refine ⟨found, ?_, hSame⟩
          rw [createChild, List.find?_cons_of_neg (by simpa using hCollides)]
          exact hFound
    · obtain ⟨hDelegate, name, found, hName, hFound, hSame⟩ :=
        h.child i content hContent hServed c child hGet hParent hMount
      refine ⟨hDelegate, name, found, hName, ?_, hSame⟩
      rw [childOf_createChild, if_neg, hFound]
      rintro ⟨hEq, rfl⟩
      rw [← hEq, hId, hChild] at hFound
      cases hFound
  refine ⟨hNewTree, hMirrors.discovered hNewTree.numbered hNode ?_⟩
  rw [childOf_createChild, if_pos ⟨hId, rfl⟩]

/-- The path of a call, which asks for a new file, does not exist on the
ramdisk. -/
structure AsksForFile (fs : FileSystem) (workingDirectory : CString) (data : SyscallFsOpen) : Prop where
  flag : creates data.flags
  notMount : (components (concatAsAbsolutePath workingDirectory data.path)).head? ≠ some mountName
  missing : ∃ parent, (resolve fs.ramdisk fs.vfs Vfs.root
    (components (concatAsAbsolutePath workingDirectory data.path))).2 = .missing parent

/-- A call that the ramdisk delegate serves. If it creates a file, it names it by
its last component alone, in a folder that exists. -/
structure OpenStep (fs : FileSystem) (call : Pid × CString × SyscallFsOpen) (next : FileSystem) :
    Prop where
  served : fs.ServedByRamdisk (concatAsAbsolutePath call.2.1 call.2.2.path)
  careful : creates call.2.2.flags →
    (∃ parent, (resolve fs.ramdisk fs.vfs Vfs.root
      (components (concatAsAbsolutePath call.2.1 call.2.2.path))).2 = .missing parent) →
    fs.AsksForFile call.2.1 call.2.2 ∧ fs.NamesFileInFolder call.2.1 call.2.2
  call : ∃ result, fsOpen fs call.1 call.2.1 call.2.2 = .ok (next, result)

theorem Mirrored.of_created (h : Mirrored fs) {workingDirectory path : CString}
    (hTarget : concatAsAbsolutePath workingDirectory data.path = path) (hFits : path.length < pathMax)
    (hAsks : fs.AsksForFile workingDirectory data) (hNames : fs.NamesFileInFolder workingDirectory data)
    {parent : Nat}
    (hResolve : FileSystem.resolve fs.ramdisk fs.vfs Vfs.root (components path) = (vfs, .missing parent))
    (hCall : fsOpen fs pid workingDirectory data = .ok (next, result)) : Mirrored next := by
  obtain ⟨folders, hPath, hExists, -⟩ := hNames
  obtain ⟨folder, hFolder⟩ := isSome_iff_exists.mp hExists
  have hMount := hAsks.notMount
  rw [hTarget] at hPath hMount
  have hRoot := h.mirrors.isSome_root
  obtain ⟨node, hMirrors, hNode, hDelegate, hId, -, hStep, hChild⟩ :=
    resolve_in_folder h.tree h.mirrors hPath hMount (folderAt_eq_some hFolder) hResolve
  obtain ⟨content, -, hContent, -, hMade⟩ := @fsOpen_missing fs pid workingDirectory path data hTarget
    hFits h.mirrors.valid hRoot hAsks.flag vfs parent hResolve
  obtain rfl : node = content := some.inj (hNode.symm.trans hContent)
  obtain ⟨entry, hEntry, hEntryId⟩ := hMirrors.backed parent node hNode hDelegate
  rw [hEntry] at hMade
  obtain ⟨next', result', hOk, -, hRamdisk, hVfs⟩ := hMade
  rw [hCall] at hOk
  cases hOk
  rw [← hId] at hChild
  obtain ⟨hTree, hCreated⟩ := hMirrors.created h.tree hNode hEntryId hStep hChild
  exact ⟨by rw [hRamdisk]; exact hTree, by rw [hRamdisk, hVfs]; exact hCreated⟩

/-- The step lemma: an open call keeps the nodes in accord with the ramdisk. -/
theorem OpenStep.mirrored {call : Pid × CString × SyscallFsOpen} (hStep : OpenStep fs call next)
    (h : Mirrored fs) : Mirrored next := by
  obtain ⟨pid, workingDirectory, data⟩ := call
  obtain ⟨hServed, hCareful, result, hCall⟩ := hStep
  obtain ⟨path, hTarget⟩ : ∃ path, concatAsAbsolutePath workingDirectory data.path = path := ⟨_, rfl⟩
  rw [hTarget] at hServed hCareful
  have hRoot := h.mirrors.isSome_root
  have hFits : path.length < pathMax := by
    by_contra hLong
    rw [fsOpen_long hTarget hLong] at hCall
    cases hCall
  have hResolved := h.mirrors.resolve h.tree hRoot (components path)
  rcases @fsOpen_cases pid fs workingDirectory data path hTarget hFits h.mirrors.valid hRoot hServed with
    ⟨target, hExists, hDelegate, -, hOpen⟩ | ⟨-, hWaited⟩
  · obtain ⟨node, hNode⟩ := isSome_iff_exists.mp
      ((h.mirrors.valid.isSome_walk hRoot _).2 target hExists)
    rw [hOpen] at hCall
    exact .of_sameTree h.tree h.mirrors (openOnce_sameTree hDelegate hNode hCall)
  · have hFresh : ∀ vfs parent, FileSystem.resolve fs.ramdisk fs.vfs Vfs.root (components path) =
        (vfs, .missing parent) → creates data.flags → Mirrored next := by
      intro vfs parent hResolve hFlag
      obtain ⟨hAsks, hNames⟩ := hCareful hFlag ⟨parent, by rw [hResolve]⟩
      exact h.of_created hTarget hFits hAsks hNames hResolve hCall
    rw [hCall] at hWaited
    generalize FileSystem.resolve fs.ramdisk fs.vfs Vfs.root (components path) = ends
      at hWaited hResolved hFresh
    cases hWaited with
    | found vfs target transaction transactions hValid hDelegate hSome hResult =>
      obtain ⟨node, hNode⟩ := isSome_iff_exists.mp hSome
      have hGet : vfs.getNodeById target = some node := hNode
      cases hOpen : openTwice pid { fs with vfs := vfs, transactions := transactions } target data with
      | error stop =>
        rw [hOpen] at hResult
        cases hResult
      | ok answer =>
        rw [hOpen] at hResult
        cases hResult
        have hSame := @openTwice_sameTree { fs with vfs := vfs, transactions := transactions }
          answer.1 pid data answer.2 target node hDelegate hGet hOpen
        exact .of_sameTree h.tree hResolved hSame
    | missing vfs parent transaction transactions hValid hDelegate hSome hResult =>
      obtain ⟨node, hNode⟩ := isSome_iff_exists.mp hSome
      by_cases hFlag : creates data.flags
      · exact hFresh vfs parent rfl hFlag
      · have hOpen := @openOnce_missing pid { fs with vfs := vfs, transactions := transactions }
          parent node data hDelegate hNode hValid
        rw [if_neg hFlag] at hOpen
        rw [hOpen] at hResult
        cases hResult
        exact ⟨h.tree, hResolved⟩
    | crashed vfs hResult => cases hResult

/-- Whatever was opened before, the nodes mirror the ramdisk. -/
theorem run_mirrored (hTree : RamdiskTree ramdisk) {calls : List (Pid × CString × SyscallFsOpen)}
    (run : Run OpenStep (initial ramdisk) calls fs) : Mirrored fs :=
  run.invariant ⟨hTree, initial_mirrors hTree⟩ fun _ _ _ hMirrored hStep => hStep.mirrored hMirrored

end Reading

/-- The open makes an entry whatever is missing, so it does what was asked for only
where the last component is. -/
theorem Mirrored.creates_as_asked_iff {fs : FileSystem} (h : Mirrored fs) (pid : Pid)
    {workingDirectory : CString} {data : SyscallFsOpen} (hAsks : fs.AsksForFile workingDirectory data) :
    fs.CreatesAsAsked pid workingDirectory data ↔ fs.NamesFileInFolder workingDirectory data := by
  obtain ⟨hTree, hMirrors⟩ := h
  obtain ⟨hFlag, hMount, hMissing⟩ := hAsks
  obtain ⟨path, hTarget⟩ : ∃ path, concatAsAbsolutePath workingDirectory data.path = path := ⟨_, rfl⟩
  rw [CreatesAsAsked, NamesFileInFolder]
  rw [hTarget] at hMount hMissing ⊢
  obtain ⟨parent, hParent⟩ := hMissing
  obtain ⟨vfs, hResolve⟩ : ∃ vfs, resolve fs.ramdisk fs.vfs Vfs.root (components path) =
      (vfs, .missing parent) := ⟨_, Prod.ext rfl hParent⟩
  obtain ⟨folders, last, hPath⟩ : ∃ folders last, components path = folders ++ [last] := by
    rcases List.eq_nil_or_concat (components path) with hNil | ⟨folders, last, hPath⟩
    · rw [hNil] at hResolve
      exact absurd hResolve resolve_nil_ne_missing
    · exact ⟨folders, last, by rw [hPath, List.concat_eq_append]⟩
  have hRoot := hMirrors.isSome_root
  by_cases hFits : path.length < pathMax
  · obtain ⟨node, -, hNode, -, hCall⟩ :=
      @fsOpen_missing fs pid workingDirectory path data hTarget hFits hMirrors.valid hRoot hFlag
        vfs parent hResolve
    cases hFolder : folderAt fs.ramdisk folders with
    | none =>
      -- Whatever is missing, an entry is made.
      refine iff_of_false (fun hAsked => ?_) ?_
      · obtain ⟨next, result, hOk, hFails⟩ := hAsked folders last hPath
        rw [hFolder] at hFails
        split at hCall
        · rw [hCall] at hOk
          cases hOk
        · obtain ⟨next', result', hOk', hStatus, -⟩ := hCall
          rw [hOk'] at hOk
          cases hOk
          exact hFails.1 hStatus
      · rintro ⟨others, hOthers, hExists, -⟩
        rw [hPath] at hOthers
        obtain ⟨rfl, -⟩ := List.append_inj' hOthers rfl
        rw [hFolder] at hExists
        cases hExists
    | some folder =>
      have hLookup := folderAt_eq_some hFolder
      obtain ⟨content, hMirrors', hContent, hDelegate, hId, hWalk, hStep, hChild⟩ :=
        resolve_in_folder hTree hMirrors hPath hMount hLookup hResolve
      obtain rfl : node = content := some.inj (hNode.symm.trans hContent)
      obtain ⟨entry, hEntry, hEntryId⟩ := hMirrors'.backed parent node hNode hDelegate
      rw [hEntry] at hCall
      obtain ⟨next, result, hOk, hStatus, hRamdisk, hVfs⟩ := hCall
      have hCreated := created_iff hTree hPath hLookup (hEntryId.trans hId) hMirrors' hNode hDelegate
        hWalk hStep hChild hRamdisk hVfs
      constructor
      · intro hAsked
        obtain ⟨next', result', hOk', hMade⟩ := hAsked folders last hPath
        rw [hOk] at hOk'
        cases hOk'
        rw [hFolder] at hMade
        obtain ⟨hName, hShort, hCounter⟩ := hCreated.mp (hMade hStatus)
        exact ⟨folders, by rw [hPath, hName], by rw [hFolder]; rfl, hShort, hCounter⟩
      · rintro ⟨others, hOthers, -, hShort, hCounter⟩ folders' last' hPath'
        rw [hPath] at hOthers hPath'
        obtain ⟨rfl, hLast⟩ := List.append_inj' hOthers rfl
        obtain ⟨rfl, hLast'⟩ := List.append_inj' hPath' rfl
        cases hLast
        cases hLast'
        refine ⟨next, result, hOk, ?_⟩
        rw [hFolder]
        exact fun _ => hCreated.mpr ⟨rfl, hShort, hCounter⟩
  · refine iff_of_false (fun hAsked => ?_) ?_
    · obtain ⟨next, result, hOk, -⟩ := hAsked folders last hPath
      rw [fsOpen_long hTarget hFits] at hOk
      cases hOk
    · rintro ⟨others, -, -, hShort, -⟩
      exact hFits (lt_trans hShort (by decide))

/-- After any opens that were careful about the files they created, a call for a missing file
creates what was asked for exactly if it names the file by its last component alone, in a folder
that exists. -/
theorem fsOpen_creates_as_asked_iff {ramdisk : Ramdisk} (hTree : RamdiskTree ramdisk)
    {calls : List (Pid × CString × SyscallFsOpen)} {fs : FileSystem}
    (run : Run OpenStep (initial ramdisk) calls fs) (pid : Pid) (workingDirectory : CString)
    (data : SyscallFsOpen) (hAsks : fs.AsksForFile workingDirectory data) :
    fs.CreatesAsAsked pid workingDirectory data ↔ fs.NamesFileInFolder workingDirectory data :=
  (run_mirrored hTree run).creates_as_asked_iff pid hAsks

def folderRamdisk : Ramdisk :=
  ⟨rootEntry, [⟨.folder, 1, 0, [97], 0, none, true, 0⟩], 2⟩

theorem folderRamdisk_tree : RamdiskTree folderRamdisk :=
  ⟨rfl, rfl, by decide, by decide, by decide⟩

def createCall (path : CString) : SyscallFsOpen := ⟨path, 64, -1, .error⟩

/-- In the working directory `/a` the file `x` is created as `/a/x`. -/
theorem fsOpen_creates_as_asked_iff_relative :
    (initial folderRamdisk).NamesFileInFolder [slash, 97] (createCall [120]) ∧
      (initial folderRamdisk).CreatesAsAsked 7 [slash, 97] (createCall [120]) := by
  have hNames : (initial folderRamdisk).NamesFileInFolder [slash, 97] (createCall [120]) :=
    ⟨[[97]], by decide, by decide, by decide, by decide⟩
  have hAsks : (initial folderRamdisk).AsksForFile [slash, 97] (createCall [120]) :=
    ⟨by decide, by decide, ⟨4, by decide⟩⟩
  exact ⟨hNames, (fsOpen_creates_as_asked_iff folderRamdisk_tree (Run.nil _) 7 [slash, 97]
    (createCall [120]) hAsks).mpr hNames⟩

/-- An open of `/a/x` creates a file whose name is the whole path, and which is not
found as `/a/x`. An open of `/b/x` creates one as well, though there is no `/b`. -/
theorem fsOpen_creates_path_as_name :
    ∃ next result, fsOpen (initial folderRamdisk) 7 [slash] (createCall [slash, 97, slash, 120]) =
        .ok (next, result) ∧ result.status = .successful ∧
      next.ramdisk.headers = ⟨.file, 2, 1, [slash, 97, slash, 120], 0, none, false, 0⟩ ::
        folderRamdisk.headers ∧
      next.ramdisk.findAbsolute [slash, 97, slash, 120] = some none ∧
      ∃ other answer, fsOpen (initial folderRamdisk) 7 [slash] (createCall [slash, 98, slash, 120]) =
          .ok (other, answer) ∧ answer.status = .successful ∧
        other.ramdisk.headers = ⟨.file, 2, 0, [slash, 98, slash, 120], 0, none, false, 0⟩ ::
          folderRamdisk.headers :=
  ⟨_, _, rfl, rfl, rfl, rfl, _, _, rfl, rfl, rfl⟩

end Kernel.FileSystem
