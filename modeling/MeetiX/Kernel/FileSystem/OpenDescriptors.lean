import MeetiX.Kernel.FileSystem.FileSystemHistory
import MeetiX.Kernel.FileSystem.OpenLookup

/-! The descriptors that a call of `fsOpen` adds. A file that is found after a
discovery is opened twice, so the call leaves two descriptors behind and
returns the second one. -/
namespace Kernel.FileSystem

open Base FileDescriptors Option

/-- A successful call adds the entry it returns, any other call adds none. -/
def Adds (before after : FileDescriptors) (pid : Pid) (data : SyscallFsOpen) : Prop :=
  if data.status = .successful then
    before.pointer pid data.fd = none ∧ (after.pointer pid data.fd).isSome ∧
      ∀ fd, fd ≠ data.fd → after.pointer pid fd = before.pointer pid fd
  else ∀ fd, after.pointer pid fd = before.pointer pid fd

/-- The call comes to an end and adds what it reports. -/
def AddsReported (before : FileDescriptors) (pid : Pid)
    (result : Outcome (FileSystem × SyscallFsOpen)) : Prop :=
  ∃ next data, result = .ok (next, data) ∧ Adds before next.descriptors pid data

def NextFree (descriptors : FileDescriptors) (pid : Pid) : Prop :=
  descriptors.pointer pid (descriptors.nextFileDescriptor pid) = none

section Adds

variable {before : FileDescriptors} {pid : Pid} {fs : FileSystem} {data : SyscallFsOpen}

theorem addsReported_error (stop : Stop) : ¬ AddsReported before pid (.error stop) := by
  rintro ⟨next, data, hResult, -⟩
  cases hResult

theorem addsReported_ok {next : FileSystem} :
    AddsReported before pid (.ok (next, data)) ↔ Adds before next.descriptors pid data := by
  constructor
  · rintro ⟨next, data, hResult, hAdds⟩
    cases hResult
    exact hAdds
  · exact fun hAdds => ⟨next, data, rfl, hAdds⟩

theorem addsReported_forget {result : Outcome (FileSystem × SyscallFsOpen)} (transaction : Nat) :
    AddsReported before pid (result.map (forget transaction)) ↔ AddsReported before pid result := by
  cases result with
  | error stop => rfl
  | ok answer =>
    rw [addsReported_ok]
    exact addsReported_ok

theorem adds_unsuccessful (hStatus : data.status ≠ .successful) : Adds before before pid data := by
  rw [Adds, if_neg hStatus]
  exact fun _ => rfl

theorem not_adds_same (hStatus : data.status = .successful) : ¬ Adds before before pid data := by
  rw [Adds, if_pos hStatus]
  rintro ⟨hNone, hSome, -⟩
  rw [hNone] at hSome
  cases hSome

theorem adds_map (nodeID : Nat) (openFlags : Int) (hStatus : data.status = .successful)
    (hFd : data.fd = (before.map pid nodeID (-1) openFlags).1) :
    Adds before (before.map pid nodeID (-1) openFlags).2 pid data ↔ NextFree before pid := by
  have hNumber : (before.map pid nodeID (-1) openFlags).1 = before.nextFileDescriptor pid := rfl
  rw [Adds, if_pos hStatus, hFd]
  constructor
  · exact fun hAdds => hAdds.1
  · intro hFree
    refine ⟨hFree, ?_, ?_⟩
    · rw [pointer_map, if_pos ⟨rfl, hNumber⟩]
      rfl
    · intro fd hNe
      rw [pointer_map, if_neg fun hEntry => hNe (hEntry.2.symm.trans hNumber)]

theorem not_adds_map_map (hValid : before.Valid) (nodeID : Nat) (openFlags : Int)
    (hStatus : data.status = .successful)
    (hFd : data.fd = ((before.map pid nodeID (-1) openFlags).2.map pid nodeID (-1) openFlags).1) :
    ¬ Adds before ((before.map pid nodeID (-1) openFlags).2.map pid nodeID (-1) openFlags).2 pid
      data := by
  have hFirst : (before.map pid nodeID (-1) openFlags).1 = before.nextFileDescriptor pid := rfl
  have hSecond : ((before.map pid nodeID (-1) openFlags).2.map pid nodeID (-1) openFlags).1 =
      Int.bmod (before.nextFileDescriptor pid + 1) wordSize :=
    nextFileDescriptor_map before pid nodeID openFlags
  have hNe : before.nextFileDescriptor pid ≠ Int.bmod (before.nextFileDescriptor pid + 1) wordSize := by
    intro hEq
    have hMod := congrArg (· % (wordSize : Int)) hEq
    simp only [Int.bmod_emod] at hMod
    have hWord : (wordSize : Int) = 4294967296 := rfl
    rw [hWord] at hMod
    omega
  rw [Adds, if_pos hStatus, hFd, hSecond]
  rintro ⟨-, -, hOthers⟩
  have hKept := hOthers _ hNe
  rw [pointer_map, if_neg fun hEntry => hNe (hEntry.2.symm.trans hSecond),
    pointer_map, if_pos ⟨rfl, hFirst⟩] at hKept
  exact hValid.pointer_ne_nextContent pid _ hKept.symm

def entryOf (fs : FileSystem) (node : FsNode) : Option RamdiskEntry :=
  fs.ramdisk.findById node.physFsID

theorem addsReported_openOnce_found {target : Nat} {node : FsNode}
    (hDelegate : fs.vfs.getDelegate target = some .ramdisk)
    (hNode : fs.vfs.getNodeById target = some node) :
    AddsReported fs.descriptors pid (openOnce pid fs .successful target data) ↔
      ∃ entry, fs.entryOf node = some entry ∧
        (entry.type = .file → node.openable ∧ NextFree fs.descriptors pid) := by
  rw [openOnce_found data hDelegate hNode, entryOf]
  cases fs.ramdisk.findById node.physFsID with
  | none => simp [addsReported_error]
  | some entry =>
    by_cases hType : entry.type = .file
    · simp only [hType, ne_eq, not_true_eq_false, if_false, addsReported_ok]
      cases hOpen : node.openable with
      | false =>
        rw [mapFile_of_not_openable hOpen]
        simp [not_adds_same, hType]
      | true =>
        obtain ⟨hFd, hDescriptors, -⟩ :=
          @mapFile_of_openable fs node hOpen pid data.flags.toInt (-1)
        rw [hDescriptors, adds_map node.id data.flags.toInt rfl hFd]
        simp [hType]
    · simp only [hType, ne_eq, not_false_eq_true, if_true, addsReported_ok]
      simp [adds_unsuccessful, hType, withTransactions]

theorem findById_truncate (ramdisk : Ramdisk) (id : Nat) (flags : BitVec 32) :
    (ramdisk.modifyById id (truncate flags)).findById id =
      (ramdisk.findById id).map (truncate flags) := by
  refine Ramdisk.findById_modifyById (fun _ entry hEntry => ?_) ramdisk
  rw [truncate]
  split <;> exact hEntry

/-- A node that is opened twice adds the descriptors that are reported just if its entry is no file.
-/
theorem addsReported_openTwice {target : Nat} {node : FsNode} (hValid : fs.descriptors.Valid)
    (hDelegate : fs.vfs.getDelegate target = some .ramdisk)
    (hNode : fs.vfs.getNodeById target = some node) :
    AddsReported fs.descriptors pid (openTwice pid fs target data) ↔
      ∃ entry, fs.entryOf node = some entry ∧ entry.type ≠ .file := by
  rw [openTwice, openOnce_found data hDelegate hNode, entryOf]
  cases hEntry : fs.ramdisk.findById node.physFsID with
  | none => simp [Except.bind, addsReported_error]
  | some entry =>
    by_cases hType : entry.type = .file
    · simp only [hType, ne_eq, not_true_eq_false, if_false, Except.bind, some.injEq]
      refine iff_of_false ?_ (by rintro ⟨other, rfl, hOther⟩; exact hOther hType)
      have hVfs := @mapFile_vfs pid fs node data.flags.toInt (-1)
      have hSecond := findById_truncate fs.ramdisk node.physFsID data.flags
      have hFile : (truncate data.flags entry).type = .file := by
        rw [truncate]
        split
        · exact hType
        · exact hType
      rw [openOnce_found _ (by rw [← hDelegate]; exact congrArg (·.getDelegate target) hVfs)
        (by rw [← hNode]; exact congrArg (·.getNodeById target) hVfs)]
      rw [hSecond, hEntry, map_some]
      dsimp only
      rw [if_neg (not_not.mpr hFile), addsReported_ok]
      cases hOpen : node.openable with
      | false =>
        simp only [mapFile_of_not_openable hOpen]
        exact not_adds_same rfl
      | true =>
        obtain ⟨-, hOnce, -⟩ := @mapFile_of_openable fs node hOpen pid data.flags.toInt (-1)
        obtain ⟨hFd, hTwice, -⟩ := @mapFile_of_openable
          { (fs.mapFile pid node data.flags.toInt (-1)).2 with
            ramdisk := fs.ramdisk.modifyById node.physFsID (truncate data.flags)
            transactions := fs.settled } node hOpen pid data.flags.toInt (-1)
        dsimp only at hFd hTwice ⊢
        rw [hOnce] at hFd hTwice ⊢
        rw [hTwice]
        exact not_adds_map_map hValid node.id data.flags.toInt rfl hFd
    · simp only [hType, ne_eq, not_false_eq_true, if_true, Except.bind]
      have hAgain := @openOnce_found pid (fs.withTransactions fs.settled) target node
        { data with status := .error, fd := -1 } hDelegate hNode
      have hSame : (fs.withTransactions fs.settled).ramdisk.findById node.physFsID = some entry :=
        hEntry
      rw [hAgain, hSame]
      simp only [hType, ne_eq, not_false_eq_true, if_true, addsReported_ok]
      exact iff_of_true (adds_unsuccessful (by simp)) ⟨entry, rfl, hType⟩

/-- Creating a file adds one entry; without the flag nothing happens. -/
theorem addsReported_openOnce_missing {parent : Nat} {node : FsNode} (hValid : fs.vfs.Valid)
    (hDelegate : fs.vfs.getDelegate parent = some .ramdisk)
    (hNode : fs.vfs.getNodeById parent = some node) :
    AddsReported fs.descriptors pid (openOnce pid fs .notFound parent data) ↔
      (creates data.flags → (fs.entryOf node).isSome ∧ NextFree fs.descriptors pid) := by
  have hOpen := @openOnce_missing pid fs parent node data hDelegate hNode hValid
  rw [entryOf]
  split at hOpen
  · rename_i hCreates
    simp only [hCreates]
    cases hEntry : fs.ramdisk.findById node.physFsID with
    | none =>
      rw [hEntry] at hOpen
      simp [hOpen, addsReported_error]
    | some entry =>
      rw [hEntry] at hOpen
      obtain ⟨next, hResult, hDescriptors, -⟩ := hOpen
      rw [hResult, addsReported_ok, hDescriptors]
      rw [adds_map fs.vfs.nodeNextID data.flags.toInt rfl rfl]
      simp
  · rename_i hCreates
    rw [hOpen, addsReported_ok]
    exact iff_of_true (adds_unsuccessful (by simp)) fun hFlag => absurd hFlag hCreates

end Adds

/-- The calls that add what they report. A file on the ramdisk must have been found without a
discovery, at a node that can be opened; the parent of a file that is to be created must have an
entry. The next number of the process must be free. -/
def OpensOnce (fs : FileSystem) (pid : Pid) (path : CString) (flags : BitVec 32) : Prop :=
  path.length < pathMax ∧
    match resolve fs.ramdisk fs.vfs Vfs.root (components path) with
    | (vfs, .found target) =>
      ∃ node entry, vfs.getNodeById target = some node ∧ fs.entryOf node = some entry ∧
        (entry.type = .file → (fs.vfs.findExisting path).bind Vfs.Existing.child = some target ∧
          node.openable ∧ NextFree fs.descriptors pid)
    | (vfs, .missing parent) =>
      creates flags → (∃ node, vfs.getNodeById parent = some node ∧ (fs.entryOf node).isSome) ∧
        NextFree fs.descriptors pid
    | (_, .crashed) => False
    | (_, .elsewhere) => True

/-- The path of the call only meets nodes that the ramdisk delegate serves. -/
def ServedByRamdisk (fs : FileSystem) (path : CString) : Prop :=
  (resolve fs.ramdisk fs.vfs Vfs.root (components path)).2 ≠ .elsewhere

/-- A call of `fsOpen` that the ramdisk delegate serves adds exactly the entry
it reports in the calls that open once, and in no others. -/
theorem fsOpen_adds_reported_iff {fs : FileSystem} (h : fs.Valid) (pid : Pid)
    (workingDirectory : CString) (data : SyscallFsOpen)
    (hServed : fs.ServedByRamdisk (concatAsAbsolutePath workingDirectory data.path)) :
    AddsReported fs.descriptors pid (fsOpen fs pid workingDirectory data) ↔
      fs.OpensOnce pid (concatAsAbsolutePath workingDirectory data.path) data.flags := by
  obtain ⟨path, hPath⟩ : ∃ path, concatAsAbsolutePath workingDirectory data.path = path := ⟨_, rfl⟩
  rw [hPath] at hServed ⊢
  by_cases hFits : path.length < pathMax
  · have hWalk : (fs.vfs.findExisting path).bind Vfs.Existing.child =
        (fs.vfs.walk Vfs.root (components path)).child := by
      rw [Vfs.findExisting_eq_walk, bind_some]
    rw [OpensOnce, hWalk]
    rcases @fsOpen_cases pid fs workingDirectory data path hPath hFits h.vfs h.root hServed with
      ⟨target, hExists, hDelegate, hResolve, hOpen⟩ | ⟨hAbsent, hWaited⟩
    · obtain ⟨node, hNode⟩ := isSome_iff_exists.mp
        ((h.vfs.isSome_walk h.root _).2 target hExists)
      have hGet : fs.vfs.getNodeById target = some node := hNode
      rw [hOpen, hResolve, addsReported_openOnce_found hDelegate hGet]
      simp [hFits, hExists, hGet]
    · rw [hAbsent]
      generalize resolve fs.ramdisk fs.vfs Vfs.root (components path) = ends at hWaited
      cases hWaited with
      | found vfs target transaction transactions hValid hDelegate hSome hResult =>
        obtain ⟨node, hNode⟩ := isSome_iff_exists.mp hSome
        have hTwice := @addsReported_openTwice pid
          { fs with vfs := vfs, transactions := transactions } data target node h.descriptors
          hDelegate hNode
        have hGet : vfs.getNodeById target = some node := hNode
        rw [hResult, addsReported_forget]
        refine hTwice.trans ⟨?_, ?_⟩
        · rintro ⟨entry, hEntry, hType⟩
          exact ⟨hFits, node, entry, hGet, hEntry, fun hFile => absurd hFile hType⟩
        · rintro ⟨-, other, entry, hOther, hEntry, hFile⟩
          obtain rfl : node = other := some.inj (hGet.symm.trans hOther)
          exact ⟨entry, hEntry, fun hType => by cases (hFile hType).1⟩
      | missing vfs parent transaction transactions hValid hDelegate hSome hResult =>
        obtain ⟨node, hNode⟩ := isSome_iff_exists.mp hSome
        have hOnce := @addsReported_openOnce_missing pid
          { fs with vfs := vfs, transactions := transactions } data parent node hValid hDelegate
          hNode
        have hGet : vfs.getNodeById parent = some node := hNode
        rw [hResult, addsReported_forget]
        refine hOnce.trans ⟨?_, ?_⟩
        · exact fun hSafe => ⟨hFits, fun hFlag =>
            ⟨⟨node, hGet, (hSafe hFlag).1⟩, (hSafe hFlag).2⟩⟩
        · rintro ⟨-, hSafe⟩ hFlag
          obtain ⟨⟨other, hOther, hEntry⟩, hFree⟩ := hSafe hFlag
          obtain rfl : node = other := some.inj (hGet.symm.trans hOther)
          exact ⟨hEntry, hFree⟩
      | crashed vfs hResult =>
        rw [hResult]
        exact iff_of_false (addsReported_error _) fun hOnce => hOnce.2
  · rw [fsOpen, hPath]
    rw [if_pos (Nat.not_lt.mp hFits)]
    exact iff_of_false (addsReported_error _) fun hOnce => hFits hOnce.1

def fileEntry : RamdiskEntry where
  type := .file
  id := 1
  parentid := 0
  name := [97]
  datalength := 0
  data := some []
  dataOnRamdisk := true
  notOnRdBufferLength := 0

/-- The file system at its start, with this file on the ramdisk. -/
def undiscovered : FileSystem := initial ⟨Ramdisk.rootEntry, [fileEntry], 2⟩

def discovered : FileSystem :=
  { undiscovered with vfs := (createVfsNode undiscovered.vfs fileEntry Vfs.root).2 }

def readCall : SyscallFsOpen := ⟨[slash, 97], 1, -1, .error⟩

/-- The file is opened once where its node exists. -/
theorem fsOpen_adds_reported_iff_discovered : discovered.OpensOnce 7 [slash, 97] 1 ∧
      AddsReported discovered.descriptors 7 (fsOpen discovered 7 [slash] readCall) := by
  have hValid : discovered.Valid := (initial_valid _).insert rfl none .file 1 (some [97])
  have hServed : discovered.ServedByRamdisk (concatAsAbsolutePath [slash] readCall.path) := by
    intro hElsewhere
    cases hElsewhere
  have hOnce : discovered.OpensOnce 7 (concatAsAbsolutePath [slash] readCall.path) readCall.flags :=
    ⟨by decide, _, fileEntry, rfl, rfl, fun _ => ⟨rfl, rfl, rfl⟩⟩
  exact ⟨hOnce, (fsOpen_adds_reported_iff hValid 7 [slash] readCall hServed).mpr hOnce⟩

/-- The first open of `/a` leaves the descriptors 3 and 4 and returns 4. -/
theorem fsOpen_adds_two_descriptors :
    ∃ next data, fsOpen undiscovered 7 [slash] readCall = .ok (next, data) ∧
      data.status = .successful ∧ data.fd = 4 ∧
      undiscovered.descriptors.pointer 7 3 = none ∧ undiscovered.descriptors.pointer 7 4 = none ∧
      (next.descriptors.pointer 7 3).isSome ∧ (next.descriptors.pointer 7 4).isSome :=
  ⟨_, _, rfl, rfl, rfl, rfl, rfl, rfl, rfl⟩

end Kernel.FileSystem
