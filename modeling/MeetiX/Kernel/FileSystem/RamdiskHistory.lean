import MeetiX.Kernel.FileSystem.OpenLookup
import MeetiX.Kernel.FileSystem.RamdiskFile

/-! The files of the ramdisk under the calls of several processes. Each descriptor has its own
offset, which can end up behind the file when another one truncates it. What a read and a write do
there is decided for every state that is reached. -/
namespace Kernel.FileSystem

open Base Function Option

/-- `FsSeekMode`. A process may pass any number. -/
inductive FsSeekMode
  | seekSet
  | seekCur
  | seekEnd
  | unknown (code : Int)
  deriving DecidableEq, Repr

inductive FsLengthStatus
  | successful
  | invalidFd
  | notFound
  | busy
  | error
  deriving DecidableEq, Repr

variable (fs : FileSystem)

/-- `FsDelegateRamdisk::requestGetLength`: the transaction, and the status and
the length that the handler gets. -/
def requestGetLength (node : FsNode) : Nat × FileSystem × FsLengthStatus × Int :=
  let (id, transactions) := fs.transactions.nextTransaction
  let fs := { fs with transactions := transactions.setStatus id .finished }
  match fs.ramdisk.findById node.physFsID with
  | none => (id, fs, .notFound, 0)
  | some ramdiskNode => (id, fs, .successful, ramdiskNode.datalength)

/-- The fields of `FsTransactionHandlerGetLengthSeek`. The descriptor is the
address of its content. -/
structure SeekHandler where
  fd : Nat
  mode : FsSeekMode
  amount : Int
  status : FsLengthStatus
  length : Int
  deriving DecidableEq, Repr

/-- The offset that `performAfterwork` computes from the length it was told. -/
def soughtOffset (handler : SeekHandler) (offset : Int) : Int :=
  let moved :=
    match handler.mode with
    | .seekCur => Int.bmod (offset + handler.amount) (2 ^ 64)
    | .seekSet => handler.amount
    | .seekEnd => Int.bmod (handler.length - handler.amount) (2 ^ 64)
    | .unknown _ => offset
  let bounded := if handler.length < moved then handler.length else moved
  if bounded < 0 then 0 else bounded

/-- `FsTransactionHandlerGetLengthSeek::performAfterwork`, as far as the
descriptor goes. -/
def performAfterwork (handler : SeekHandler) : Option FileSystem :=
  if handler.status = .successful then
    (fs.descriptors.modifyContent handler.fd fun content =>
      { content with offset := soughtOffset handler content.offset }).map fun descriptors =>
        { fs with descriptors := descriptors }
  else some fs

/-- The file system and the seeks whose threads still wait. -/
structure Files where
  fs : FileSystem
  seeks : List SeekHandler

/-- What `fsRead`, `fsWrite` and `fsSeek` find for a descriptor of a file that
the ramdisk delegate serves. -/
def ramdiskFile (pid : Pid) (fd : Fd) :
    Option (FsNode × Nat × FileDescriptorContent × FileSystem) :=
  match fs.nodeForDescriptor pid fd with
  | some (some (node, address), fs) =>
    if fs.vfs.getDelegate node.id = some .ramdisk then
      (fs.descriptors.contents address).map fun content => (node, address, content, fs)
    else none
  | _ => none

def setContent (address : Nat) (content : FileDescriptorContent) : FileSystem :=
  { fs with descriptors := { fs.descriptors with
      contents := update fs.descriptors.contents address (some content) } }

/-- The steps of the calls on ramdisk files. A seek asks for the length in one step and moves the
descriptor when its waiter is checked. The heap of a write is what new buffers have in them. -/
inductive FileCall
  | discover (parent : Nat) (child : CString)
  | openNode (pid : Pid) (data : SyscallFsOpen) (status : FsDiscoveryStatus) (node : Nat)
  | read (pid : Pid) (fd : Fd) (length : Int)
  | write (pid : Pid) (fd : Fd) (length : Int) (buffer heap : Nat → UInt8)
  | seek (pid : Pid) (fd : Fd) (mode : FsSeekMode) (amount : Int)
  | finishSeek (position : Nat)

/-- The state after a step, if it comes to an end. -/
def callFile (files : Files) : FileCall → Option Files
  | .discover parent child =>
    (requestDiscovery files.fs parent child).toOption.map fun (_, _, fs) =>
      { files with fs := fs }
  | .openNode pid data status node =>
    (startOpen pid 1 files.fs ⟨data, status, node, .error⟩).toOption.map fun (_, fs, _) =>
      { files with fs := fs }
  | .read pid fd length => do
      let (node, address, content, fs) ← ramdiskFile files.fs pid fd
      let (fs, content, _, _) ← (requestRead fs node length content ⟨none, .error, -1⟩).toOption
      some { files with fs := fs.setContent address content }
  | .write pid fd length buffer heap => do
      let (node, address, content, fs) ← ramdiskFile files.fs pid fd
      let (fs, content, _) ←
        (requestWrite heap fs node length buffer content ⟨none, .error, -1⟩).toOption
      some { files with fs := fs.setContent address content }
  | .seek pid fd mode amount => do
      let (node, address, _, fs) ← ramdiskFile files.fs pid fd
      let (_, fs, status, length) := requestGetLength fs node
      some { fs := fs, seeks := files.seeks ++ [⟨address, mode, amount, status, length⟩] }
  | .finishSeek position => do
      let handler ← files.seeks[position]?
      let fs ← performAfterwork files.fs handler
      some { fs := fs, seeks := files.seeks.eraseIdx position }

def FileHistory (files : Files) (call : FileCall) (next : Files) : Prop :=
  callFile files call = some next

/-- A write of a negative number of bytes is not meant here. -/
def FileCall.Counts : FileCall → Prop
  | .write _ _ length _ _ => 0 ≤ length
  | _ => True

section Keeps

/-- No descriptor stands in front of its file. -/
def Forward (contents : Nat → Option FileDescriptorContent) : Prop :=
  ∀ address content, contents address = some content → 0 ≤ content.offset

variable {pid : Pid} {fs next : FileSystem} {contents : Nat → Option FileDescriptorContent}
variable {handler opened : OpenHandler}

theorem Forward.update (h : Forward contents) {address : Nat} {content : FileDescriptorContent}
    (hOffset : 0 ≤ content.offset) : Forward (update contents address (some content)) := by
  intro other found hFound
  by_cases hOther : other = address
  · rw [hOther, update_self] at hFound
    cases hFound
    exact hOffset
  · rw [update_of_ne hOther] at hFound
    exact h other found hFound

theorem Forward.mapFile (h : Forward fs.descriptors.contents) (node : FsNode) (openFlags : Int)
    (fd : Fd) : Forward (fs.mapFile pid node openFlags fd).2.descriptors.contents := by
  have hMap : Forward (fs.descriptors.map pid node.id fd openFlags).2.contents := by
    rw [FileDescriptors.contents_map]
    exact h.update (le_refl 0)
  rw [FileSystem.mapFile]
  split
  · exact hMap
  · exact hMap
  · exact h

theorem mapFile_ramdisk (node : FsNode) (openFlags : Int) (fd : Fd) :
    (fs.mapFile pid node openFlags fd).2.ramdisk = fs.ramdisk := by
  rw [mapFile]
  split <;> rfl

theorem openEntry_keeps (h : openEntry fs handler = .ok (next, opened)) :
    next.descriptors = fs.descriptors ∧ (AllStored fs.ramdisk → AllStored next.ramdisk) := by
  unfold openEntry at h
  split at h
  · cases h
  · dsimp only at h
    split at h
    · split at h
      · cases h
      · split at h
        · cases h
          exact ⟨rfl, id⟩
        · cases h
          exact ⟨rfl, (FileStep.truncate ..).allStored⟩
    · split at h
      · split at h
        · cases h
        · cases h
          exact ⟨rfl, (FileStep.create ..).allStored⟩
      · cases h
        exact ⟨rfl, id⟩
    · cases h
      exact ⟨rfl, id⟩

theorem finishOpen_keeps {stat : FinishStatus}
    (h : finishOpen pid fs handler = .ok (stat, next, opened)) :
    next.ramdisk = fs.ramdisk ∧ (Forward fs.descriptors.contents → Forward next.descriptors.contents) := by
  unfold finishOpen at h
  split at h
  · split at h
    · cases h
    · cases h
      exact ⟨mapFile_ramdisk .., fun hForward => hForward.mapFile _ _ _⟩
  · cases h
    exact ⟨rfl, id⟩

/-- An open call stores no data in the wrong place and moves no offset below 0. -/
theorem startOpen_keeps {status : StartStatus}
    (h : startOpen pid 1 fs handler = .ok (status, next, opened)) :
    (AllStored fs.ramdisk → AllStored next.ramdisk) ∧
      (Forward fs.descriptors.contents → Forward next.descriptors.contents) := by
  cases hDelegate : fs.vfs.getDelegate handler.node with
  | none =>
    rw [startOpen, hDelegate] at h
    cases h
    exact ⟨id, id⟩
  | some delegate =>
    by_cases hRamdisk : delegate = .ramdisk
    · subst hRamdisk
      rw [startOpen_ramdisk hDelegate] at h
      split at h
      · cases h
      · rename_i asked found hEntry
        split at h
        · cases h
        · rename_i stat last finished hFinish
          cases h
          obtain ⟨hDescriptors, hStored⟩ := openEntry_keeps hEntry
          obtain ⟨hSame, hForward⟩ := finishOpen_keeps hFinish
          refine ⟨fun hAll => ?_, fun hOffsets => hForward ?_⟩
          · change AllStored last.ramdisk
            rw [hSame]
            exact hStored hAll
          · change Forward asked.descriptors.contents
            rw [hDescriptors]
            exact hOffsets
    · rw [startOpen, hDelegate] at h
      cases delegate with
      | ramdisk => exact absurd rfl hRamdisk
      | mount => cases h
      | pipe => cases h
      | tasked thread => cases h

end Keeps

section Steps

variable {fs next : FileSystem} {node : FsNode} {content content' : FileDescriptorContent}
variable {length : Int} {handler handler' : TransferHandler FsReadStatus} {bytes : List UInt8}
variable {ramdisk : Ramdisk} {calls : List FileCall} {files : Files}

theorem ramdiskFile_spec {pid : Pid} {fd : Fd} {address : Nat}
    (h : ramdiskFile fs pid fd = some (node, address, content, next)) :
    next.ramdisk = fs.ramdisk ∧ next.descriptors.contents = fs.descriptors.contents ∧
      fs.descriptors.contents address = some content := by
  unfold ramdiskFile at h
  split at h
  · rename_i hFind
    split at h
    · obtain ⟨value, hValue, hPair⟩ := map_eq_some_iff.mp h
      cases hPair
      have hContents : next.ramdisk = fs.ramdisk ∧
          next.descriptors.contents = fs.descriptors.contents := by
        unfold nodeForDescriptor at hFind
        dsimp only at hFind
        split at hFind
        · cases hFind
        · split at hFind
          · cases hFind
          · split at hFind
            · cases hFind
            · cases hFind
              exact ⟨rfl, FileDescriptors.contents_getProcessTable ..⟩
      exact ⟨hContents.1, hContents.2, hContents.2 ▸ hValue⟩
    · cases h
  · cases h

theorem startTransfer_ramdisk (fs : FileSystem) (repeated : Option Nat) :
    (startTransfer fs repeated).2.ramdisk = fs.ramdisk ∧
      (startTransfer fs repeated).2.descriptors = fs.descriptors := by
  unfold startTransfer
  split <;> exact ⟨rfl, rfl⟩

def readAmount (entry : RamdiskEntry) (offset length : Int) : Int :=
  if (entry.datalength : Int) ≤ offset + length then entry.datalength - offset else length

inductive ReadFrom (entry : RamdiskEntry) (content : FileDescriptorContent) (length : Int) :
    FileDescriptorContent → List UInt8 → Prop
  | bytes {data : List UInt8} (hData : entry.data = some data)
      (hSome : 0 < readAmount entry content.offset length) (hOffset : 0 ≤ content.offset)
      (hFits : content.offset.toNat + copyLength (readAmount entry content.offset length) ≤
        data.length) :
      ReadFrom entry content length
        { content with offset := content.offset + readAmount entry content.offset length }
        ((data.drop content.offset.toNat).take
          (copyLength (readAmount entry content.offset length)))
  | nothing (hNone : readAmount entry content.offset length ≤ 0) :
      ReadFrom entry content length content []

section

variable (h : requestRead fs node length content handler = .ok (next, content', handler', bytes))

include h

theorem requestRead_cases : next.ramdisk = fs.ramdisk ∧ next.descriptors = fs.descriptors ∧
      (content' = content ∧ handler'.status ≠ .successful ∨
        ∃ entry, fs.ramdisk.findById node.physFsID = some entry ∧
          handler'.result = readAmount entry content.offset length ∧
          ReadFrom entry content length content' bytes) := by
  obtain ⟨hRamdisk, hDescriptors⟩ := startTransfer_ramdisk fs handler.repeated
  unfold requestRead at h
  dsimp only at h
  rw [hRamdisk] at h
  split at h
  · cases h
    exact ⟨hRamdisk, hDescriptors, Or.inl ⟨rfl, by simp⟩⟩
  · rename_i ramdiskNode hEntry
    split at h
    · cases h
      exact ⟨hRamdisk, hDescriptors, Or.inl ⟨rfl, by simp⟩⟩
    · rename_i data hData
      rw [← readAmount] at h
      split at h
      · cases h
      · split at h
        · rename_i hSome
          split at h
          · rename_i hFits
            cases h
            exact ⟨hRamdisk, hDescriptors, Or.inr ⟨ramdiskNode, hEntry, rfl,
              .bytes hData hSome hFits.1 hFits.2⟩⟩
          · cases h
        · rename_i hNone
          cases h
          exact ⟨hRamdisk, hDescriptors, Or.inr ⟨ramdiskNode, hEntry, rfl,
            .nothing (not_lt.mp hNone)⟩⟩

theorem requestRead_forward : content.offset ≤ content'.offset := by
  obtain ⟨-, -, ⟨rfl, -⟩ | ⟨entry, -, -, hRead⟩⟩ := requestRead_cases h
  · exact le_refl _
  · cases hRead with
    | bytes hData hSome hOffset hFits =>
      dsimp only
      omega
    | nothing hNone => exact le_refl _

end

/-- A write keeps the data of the entries where their fields say. -/
theorem requestWrite_keeps {heap : Nat → UInt8} {buffer : Nat → UInt8}
    {handler handler' : TransferHandler FsWriteStatus} (hStored : AllStored fs.ramdisk)
    (h : requestWrite heap fs node length buffer content handler = .ok (next, content', handler')) :
    AllStored next.ramdisk ∧ next.descriptors = fs.descriptors ∧
      (0 ≤ length → 0 ≤ content.offset → 0 ≤ content'.offset) := by
  obtain ⟨hRamdisk, hDescriptors⟩ := startTransfer_ramdisk fs handler.repeated
  unfold requestWrite at h
  dsimp only at h
  rw [hRamdisk] at h
  split at h
  · cases h
    refine ⟨?_, hDescriptors, fun _ hOffset => hOffset⟩
    change AllStored (startTransfer fs handler.repeated).2.ramdisk
    rw [hRamdisk]
    exact hStored
  · rename_i ramdiskNode hEntry
    obtain ⟨⟨written, moved⟩, hWrite, h⟩ := bind_eq_ok_iff.mp h
    cases h
    refine ⟨(FileStep.write hEntry hWrite).allStored hStored, hDescriptors, ?_⟩
    intro hLength hOffset
    obtain ⟨-, -, offset, entry, hStart, -, -, rfl, -, -⟩ :=
      writeEntry_ok (hStored.findById hEntry) hWrite
    have hForward : 0 ≤ offset := by
      rw [hStart]
      split
      · exact Int.natCast_nonneg _
      · exact hOffset
    exact Int.add_nonneg hForward hLength

theorem soughtOffset_nonneg (handler : SeekHandler) (offset : Int) :
    0 ≤ soughtOffset handler offset := by
  have hBound : ∀ bounded : Int, 0 ≤ if bounded < 0 then 0 else bounded := by
    intro bounded
    split <;> omega
  exact hBound _

theorem performAfterwork_keeps {handler : SeekHandler} (h : performAfterwork fs handler = some next) :
    next.ramdisk = fs.ramdisk ∧ (Forward fs.descriptors.contents → Forward next.descriptors.contents) := by
  unfold performAfterwork at h
  split at h
  · obtain ⟨descriptors, hModify, rfl⟩ := map_eq_some_iff.mp h
    refine ⟨rfl, fun hForward => ?_⟩
    unfold FileDescriptors.modifyContent at hModify
    split at hModify
    · cases hModify
    · cases hModify
      exact hForward.update (soughtOffset_nonneg ..)
  · cases h
    exact ⟨rfl, id⟩

theorem requestDiscovery_keeps {parent : Nat} {child : CString} {id : Nat}
    {status : FsDiscoveryStatus}
    (h : requestDiscovery fs parent child = .ok (id, status, next)) :
    next.ramdisk = fs.ramdisk ∧ next.descriptors = fs.descriptors := by
  unfold requestDiscovery at h
  split at h
  · cases h
  · obtain ⟨found, -, h⟩ := bind_eq_ok_iff.mp h
    split at h
    · cases h
      exact ⟨rfl, rfl⟩
    · cases h
      exact ⟨rfl, rfl⟩

theorem toOption_eq_some {α : Type} {result : Outcome α} {value : α}
    (h : result.toOption = some value) : result = .ok value := by
  cases result with
  | error stop => cases h
  | ok found =>
    cases h
    rfl

/-- Every step keeps the data of the entries where their fields say, and one
that writes no negative length keeps the descriptors from standing in front of
their files. -/
theorem FileHistory.keeps {files next : Files} {call : FileCall} (hStep : FileHistory files call next)
    (hStored : AllStored files.fs.ramdisk) :
    AllStored next.fs.ramdisk ∧
      (call.Counts → Forward files.fs.descriptors.contents →
        Forward next.fs.descriptors.contents) := by
  cases call with
  | discover parent child =>
    obtain ⟨⟨transaction, status, fs⟩, hAsk, rfl⟩ := map_eq_some_iff.mp hStep
    obtain ⟨hRamdisk, hDescriptors⟩ := requestDiscovery_keeps (toOption_eq_some hAsk)
    rw [hRamdisk, hDescriptors]
    exact ⟨hStored, fun _ => id⟩
  | openNode pid data status node =>
    obtain ⟨⟨started, fs, opened⟩, hOpen, rfl⟩ := map_eq_some_iff.mp hStep
    obtain ⟨hAll, hForward⟩ := startOpen_keeps (toOption_eq_some hOpen)
    exact ⟨hAll hStored, fun _ => hForward⟩
  | read pid fd length =>
    obtain ⟨⟨node, address, content, fs⟩, hFile, hStep⟩ := bind_eq_some_iff.mp hStep
    obtain ⟨⟨read, content', handler, bytes⟩, hRead, hStep⟩ := bind_eq_some_iff.mp hStep
    cases hStep
    obtain ⟨hRamdisk, hContents, hContent⟩ := ramdiskFile_spec hFile
    obtain ⟨hSame, hDescriptors, -⟩ := requestRead_cases (toOption_eq_some hRead)
    have hOffset := requestRead_forward (toOption_eq_some hRead)
    refine ⟨?_, fun _ hForward => ?_⟩
    · change AllStored read.ramdisk
      rw [hSame, hRamdisk]
      exact hStored
    · dsimp only [setContent]
      rw [hDescriptors, hContents]
      exact hForward.update (le_trans (hForward address content hContent) hOffset)
  | write pid fd length buffer heap =>
    obtain ⟨⟨node, address, content, fs⟩, hFile, hStep⟩ := bind_eq_some_iff.mp hStep
    obtain ⟨⟨written, content', handler⟩, hWrite, hStep⟩ := bind_eq_some_iff.mp hStep
    cases hStep
    obtain ⟨hRamdisk, hContents, hContent⟩ := ramdiskFile_spec hFile
    rw [← hRamdisk] at hStored
    obtain ⟨hAll, hDescriptors, hOffset⟩ := requestWrite_keeps hStored (toOption_eq_some hWrite)
    refine ⟨hAll, fun hCounts hForward => ?_⟩
    dsimp only [setContent]
    rw [hDescriptors, hContents]
    exact hForward.update (hOffset hCounts (hForward address content hContent))
  | seek pid fd mode amount =>
    obtain ⟨⟨node, address, content, fs⟩, hFile, hStep⟩ := bind_eq_some_iff.mp hStep
    cases hStep
    obtain ⟨hRamdisk, hContents, -⟩ := ramdiskFile_spec hFile
    have hSame : (requestGetLength fs node).2.1.ramdisk = files.fs.ramdisk ∧
        (requestGetLength fs node).2.1.descriptors.contents = files.fs.descriptors.contents := by
      unfold requestGetLength
      dsimp only
      split <;> exact ⟨hRamdisk, hContents⟩
    refine ⟨?_, fun _ hForward => ?_⟩
    · exact hSame.1 ▸ hStored
    · exact hSame.2 ▸ hForward
  | finishSeek position =>
    obtain ⟨handler, -, hStep⟩ := bind_eq_some_iff.mp hStep
    obtain ⟨fs, hAfter, hStep⟩ := bind_eq_some_iff.mp hStep
    cases hStep
    obtain ⟨hRamdisk, hForward⟩ := performAfterwork_keeps hAfter
    refine ⟨?_, fun _ => hForward⟩
    rw [hRamdisk]
    exact hStored

def Files.initial (ramdisk : Ramdisk) : Files := ⟨FileSystem.initial ramdisk, []⟩

theorem run_stored
    (hRamdisk : AllStored ramdisk) (run : Run FileHistory (Files.initial ramdisk) calls files) :
    AllStored files.fs.ramdisk := by
  have hKept : ∀ s call t, AllStored s.fs.ramdisk → FileHistory s call t → AllStored t.fs.ramdisk :=
    fun _ _ _ h hStep => (hStep.keeps h).1
  exact run.invariant hRamdisk hKept

theorem run_forward (hRamdisk : AllStored ramdisk) (hCalls : ∀ call ∈ calls, call.Counts)
    (run : Run FileHistory (Files.initial ramdisk) calls files) :
    Forward files.fs.descriptors.contents := by
  have hKept : ∀ s call t, call ∈ calls →
      AllStored s.fs.ramdisk ∧ Forward s.fs.descriptors.contents → FileHistory s call t →
      AllStored t.fs.ramdisk ∧ Forward t.fs.descriptors.contents := by
    intro s call t hMem h hStep
    obtain ⟨hStored, hForward⟩ := hStep.keeps h.1
    exact ⟨hStored, hForward (hCalls call hMem) h.2⟩
  have hStart : AllStored (Files.initial ramdisk).fs.ramdisk ∧
      Forward (Files.initial ramdisk).fs.descriptors.contents := by
    refine ⟨hRamdisk, fun address content hContent => ?_⟩
    cases hContent
  exact (run.invariant_of_mem hStart hKept).2

end Steps

section Reads

/-- What is asked of a read: its result is a number of bytes up to the one that
was asked for, these bytes of the file are delivered, and the descriptor moves
behind them. -/
structure ReadsPart (entry : RamdiskEntry) (content content' : FileDescriptorContent)
    (length result : Int) (bytes : List UInt8) : Prop where
  nonneg : 0 ≤ result
  le : result ≤ length
  bytes_eq : bytes = ((contents entry).drop content.offset.toNat).take result.toNat
  length_eq : (bytes.length : Int) = result
  offset_eq : content' = { content with offset := content.offset + result }

variable {length : Int} {bytes : List UInt8}

/-- A read that finds its file does what is asked of it exactly when the
descriptor does not stand behind the end of the file. -/
theorem ReadFrom.readsPart_iff {entry : RamdiskEntry} {content content' : FileDescriptorContent}
    (h : ReadFrom entry content length content' bytes)
    (hStored : Stored entry) (hLength : 0 ≤ length) :
    ReadsPart entry content content' length (readAmount entry content.offset length) bytes ↔
      content.offset ≤ entry.datalength := by
  constructor
  · intro hPart
    have hNonneg := hPart.nonneg
    unfold readAmount at hNonneg
    split at hNonneg <;> omega
  · intro hInside
    have hAmount : 0 ≤ readAmount entry content.offset length ∧
        readAmount entry content.offset length ≤ length ∧
        content.offset + readAmount entry content.offset length ≤ entry.datalength := by
      unfold readAmount
      split <;> omega
    obtain ⟨hNonneg, hLe, hEnd⟩ := hAmount
    cases h with
    | nothing hNone =>
      have hZero : readAmount entry content.offset length = 0 := le_antisymm hNone hNonneg
      rw [hZero]
      exact ⟨le_refl 0, hLength, by simp, rfl, by simp⟩
    | bytes hData hSome hOffset hFits =>
      rename_i data
      have hLess := hStored.datalength_lt
      generalize readAmount entry content.offset length = amount at *
      have hCopy : copyLength amount = amount.toNat := by
        unfold copyLength wordSize at *
        omega
      have hContents : contents entry = data.take entry.datalength := by
        rw [contents, hData]
        rfl
      rw [hCopy] at hFits ⊢
      refine ⟨hNonneg, hLe, ?_, ?_, rfl⟩
      · rw [hContents, List.drop_take, List.take_take, Nat.min_eq_left (by omega)]
      · rw [List.length_take, List.length_drop]
        omega

/-- After any calls through any descriptors, a successful read does what is asked
of it exactly when its descriptor does not stand behind the end of the file. -/
theorem read_reads_part_iff {ramdisk : Ramdisk} (hRamdisk : AllStored ramdisk)
    {calls : List FileCall} {files : Files}
    (run : Run FileHistory (Files.initial ramdisk) calls files) {pid : Pid} {fd : Fd} {node : FsNode}
    {address : Nat} {content content' : FileDescriptorContent} {fs fs' : FileSystem}
    (hFile : ramdiskFile files.fs pid fd = some (node, address, content, fs)) {length : Int}
    (hLength : 0 ≤ length) {handler handler' : TransferHandler FsReadStatus} {bytes : List UInt8}
    (hRead : requestRead fs node length content handler = .ok (fs', content', handler', bytes))
    (hStatus : handler'.status = .successful) :
    ∃ entry, files.fs.ramdisk.findById node.physFsID = some entry ∧
      (ReadsPart entry content content' length handler'.result bytes ↔
        content.offset ≤ entry.datalength) := by
  obtain ⟨hSame, -, -⟩ := ramdiskFile_spec hFile
  obtain ⟨-, -, ⟨-, hFailed⟩ | ⟨entry, hEntry, hResult, hFrom⟩⟩ := requestRead_cases hRead
  · exact absurd hStatus hFailed
  · rw [hSame] at hEntry
    rw [hResult]
    exact ⟨entry, hEntry, hFrom.readsPart_iff ((run_stored hRamdisk run).findById hEntry) hLength⟩

/-- A ramdisk with one file of the given bytes, named `a`. -/
def oneFile (data : List UInt8) : Ramdisk :=
  ⟨Ramdisk.rootEntry, [⟨.file, 1, 0, [97], data.length, some data, true, 0⟩], 2⟩

theorem oneFile_stored {data : List UInt8} (h : data.length < wordSize) :
    AllStored (oneFile data) := by
  have hWord : 0 < wordSize := by decide
  refine ⟨⟨hWord, le_refl _, fun _ => rfl, hWord⟩, fun entry hMem => ?_⟩
  obtain rfl := List.mem_singleton.mp hMem
  exact ⟨h, le_refl _, (fun hBuffer => by cases hBuffer), hWord⟩

/-- An open of the node of that file, once it has been discovered. -/
def openFile (pid : Pid) : FileCall := .openNode pid ⟨[slash, 97], 3, -1, .error⟩ .successful 4

/-- The file has been discovered and the processes 1 and 2 have opened it. -/
def twoReaders : List FileCall := [.discover Vfs.root [97], openFile 1, openFile 2]

/-- The same, and process 1 has read the six bytes of the file before process 2
wrote its first byte. -/
def readAndCut : List FileCall :=
  twoReaders ++ [.read 1 3 6, .write 2 3 1 (fun _ => 9) (fun _ => 0)]

/-- What a read of some bytes through descriptor 3 of process 1 finds: the node,
the offset of the descriptor, and the results. -/
def readThree (fs : FileSystem) (length : Int) :
    Option (Nat × Int × TransferHandler FsReadStatus × List UInt8) := do
  let (node, _, content, fs) ← ramdiskFile fs 1 3
  let (_, _, handler, bytes) ← (requestRead fs node length content ⟨none, .error, -1⟩).toOption
  some (node.physFsID, content.offset, handler, bytes)

theorem readThree_eq {fs : FileSystem} {offset : Int} {physFsID : Nat}
    {handler' : TransferHandler FsReadStatus}
    (h : readThree fs length = some (physFsID, offset, handler', bytes)) :
    ∃ node address content content' next next',
      ramdiskFile fs 1 3 = some (node, address, content, next) ∧
      requestRead next node length content ⟨none, .error, -1⟩ =
        .ok (next', content', handler', bytes) ∧
      node.physFsID = physFsID ∧ content.offset = offset := by
  obtain ⟨⟨node, address, content, next⟩, hFile, h⟩ := bind_eq_some_iff.mp h
  obtain ⟨⟨next', content', handler, read⟩, hRead, h⟩ := bind_eq_some_iff.mp h
  cases h
  exact ⟨node, address, content, content', next, next', hFile, toOption_eq_some hRead, rfl, rfl⟩

abbrev sixByteFile : Files := Files.initial (oneFile [1, 2, 3, 4, 5, 6])

/-- Process 1 reads four bytes from the start of the file. -/
theorem read_reads_part_iff_start :
    ∃ files node address content content' fs fs' handler' bytes entry,
      Run FileHistory sixByteFile twoReaders files ∧
      ramdiskFile files.fs 1 3 = some (node, address, content, fs) ∧
      requestRead fs node 4 content ⟨none, .error, -1⟩ = .ok (fs', content', handler', bytes) ∧
      handler'.status = .successful ∧ files.fs.ramdisk.findById node.physFsID = some entry ∧
      ReadsPart entry content content' 4 handler'.result bytes := by
  have run : Run FileHistory sixByteFile twoReaders _ :=
    run_replay (by decide +kernel)
  have hThree : readThree (replay callFile sixByteFile twoReaders).fs
      4 = some (1, 0, ⟨none, .successful, 4⟩, [1, 2, 3, 4]) := by decide +kernel
  obtain ⟨node, address, content, content', fs, fs', hFile, hRead, hNode, hOffset⟩ :=
    readThree_eq hThree
  obtain ⟨entry, hEntry, hIff⟩ := read_reads_part_iff (oneFile_stored (by decide)) run hFile
    (by decide) hRead rfl
  refine ⟨_, node, address, content, content', fs, fs', _, _, entry, run, hFile, hRead, rfl, hEntry,
    hIff.mpr ?_⟩
  rw [hOffset]
  exact Int.natCast_nonneg _

/-- The file has one byte left and descriptor 3 of process 1 stands behind the
sixth: its read of one byte succeeds with the result -5. -/
theorem read_behind_end_negative : ∃ files node address content content' fs fs' handler' bytes,
      Run FileHistory sixByteFile readAndCut files ∧
      ramdiskFile files.fs 1 3 = some (node, address, content, fs) ∧
      requestRead fs node 1 content ⟨none, .error, -1⟩ = .ok (fs', content', handler', bytes) ∧
      content.offset = 6 ∧ handler'.status = .successful ∧ handler'.result = -5 := by
  have run : Run FileHistory sixByteFile readAndCut _ :=
    run_replay (by decide +kernel)
  have hThree : readThree (replay callFile sixByteFile readAndCut).fs
      1 = some (1, 6, ⟨none, .successful, -5⟩, []) := by decide +kernel
  obtain ⟨node, address, content, content', fs, fs', hFile, hRead, -, hOffset⟩ := readThree_eq hThree
  exact ⟨_, node, address, content, content', fs, fs', _, _, run, hFile, hRead, hOffset, rfl, rfl⟩

end Reads

section Growth

/-- The size a buffer has when the loop of a write stops enlarging it at the
latest: the next one is no larger, or a size that does not fit. -/
def ceiling (capacity : Nat) : Nat :=
  if capacity < grown capacity ∧ grown capacity < wordSize then ceiling (grown capacity)
  else capacity
termination_by wordSize - capacity

variable {entry result : RamdiskEntry} {fuel capacity buflen : Nat} {content : FileDescriptorContent}

theorem le_grown (length : Nat) : length ≤ grown length := by
  unfold grown
  omega

theorem le_ceiling (capacity : Nat) : capacity ≤ ceiling capacity := by
  fun_induction ceiling capacity with
  | case1 capacity hGrows ih => omega
  | case2 capacity hStays => exact le_refl _

theorem ceiling_large (h : 6 ≤ capacity) : 3579139413 < ceiling capacity := by
  fun_induction ceiling capacity with
  | case1 capacity hGrows ih => exact ih (by omega)
  | case2 capacity hStays =>
    unfold wordSize grown at hStays
    omega

/-- One round of the loop stays below the ceiling. -/
theorem ceiling_enlarged (h : enlarged capacity = .ok buflen) :
    ceiling buflen = ceiling capacity := by
  unfold enlarged at h
  split at h
  · rename_i hFits
    cases h
    by_cases hGrows : capacity < grown capacity
    · rw [ceiling.eq_def capacity, if_pos ⟨hGrows, hFits⟩]
    · rw [(Nat.not_lt.mp hGrows).antisymm (le_grown capacity)]
  · cases h

def writeOffset (content : FileDescriptorContent) (entry : RamdiskEntry) : Int :=
  if appends content.openFlags then entry.datalength else content.offset

/-- The size of the buffer with which the loop of a write starts. -/
def startCapacity (entry : RamdiskEntry) : Nat :=
  if entry.dataOnRamdisk then grown entry.datalength
  else
    match entry.data with
    | some _ => entry.notOnRdBufferLength
    | none => 32

/-- The loop of a write of a number of bytes ends, with a buffer that has room
for them behind the offset. -/
def GetsRoom (heap : Nat → UInt8) (content : FileDescriptorContent) (entry : RamdiskEntry)
    (length : Nat) : Prop :=
  ∃ moved result, moveToBuffer heap entry = .ok moved ∧
    expandBuffer heap (writeOffset content entry) length (wordSize + 1) moved = .ok result ∧
    writeOffset content entry + length ≤ ((result.data.getD []).length : Int)

theorem newBuffer_of_le (heap : Nat → UInt8) {datalength : Nat} {data : List UInt8}
    (hBuflen : datalength ≤ buflen) (hData : datalength ≤ data.length) :
    ∃ buffer, newBuffer heap buflen data datalength = .ok buffer := by
  unfold newBuffer
  rw [if_pos ⟨hBuflen, hData⟩]
  exact ⟨_, rfl⟩

theorem moveToBuffer_capacity {heap : Nat → UInt8} {moved : RamdiskEntry}
    (h : moveToBuffer heap entry = .ok moved) : moved.notOnRdBufferLength = startCapacity entry := by
  unfold moveToBuffer at h
  unfold startCapacity
  split at h
  · rename_i hRamdisk
    obtain ⟨buflen, hBuflen, h⟩ := bind_eq_ok_iff.mp h
    obtain ⟨buffer, -, h⟩ := bind_eq_ok_iff.mp h
    cases h
    rw [if_pos hRamdisk]
    unfold enlarged at hBuflen
    split at hBuflen
    · cases hBuflen
      rfl
    · cases hBuflen
  · rename_i hRamdisk
    rw [if_neg hRamdisk]
    cases hData : entry.data with
    | some data =>
      rw [hData] at h
      cases h
      rfl
    | none =>
      rw [hData] at h
      cases h
      rfl

theorem moveToBuffer_of_fits (heap : Nat → UInt8) (hStored : Stored entry)
    (hFits : startCapacity entry < wordSize) : ∃ moved, moveToBuffer heap entry = .ok moved := by
  unfold startCapacity at hFits
  unfold moveToBuffer
  split at hFits
  · rename_i hRamdisk
    obtain ⟨buffer, hBuffer⟩ :=
      newBuffer_of_le heap (le_grown entry.datalength) hStored.datalength_le
    rw [if_pos hRamdisk, enlarged, if_pos hFits]
    refine ⟨_, bind_eq_ok_iff.mpr ⟨_, rfl, bind_eq_ok_iff.mpr ⟨buffer, hBuffer, rfl⟩⟩⟩
  · rename_i hRamdisk
    rw [if_neg hRamdisk]
    split
    · exact ⟨_, rfl⟩
    · exact ⟨_, rfl⟩

variable {heap : Nat → UInt8} {offset : Int} {length : Nat}

theorem expandBuffer_le_ceiling (h : expandBuffer heap offset length fuel entry = .ok result) :
    result.notOnRdBufferLength ≤ ceiling entry.notOnRdBufferLength := by
  induction fuel generalizing entry with
  | zero => cases h
  | succ fuel ih =>
    rw [expandBuffer] at h
    split at h
    · obtain ⟨buflen, hBuflen, h⟩ := bind_eq_ok_iff.mp h
      obtain ⟨buffer, -, h⟩ := bind_eq_ok_iff.mp h
      rw [← ceiling_enlarged hBuflen]
      exact ih h
    · cases h
      exact le_ceiling _

/-- Below the ceiling the loop reaches what it needs. -/
theorem expandBuffer_reaches {old : RamdiskEntry} (hEntry : Buffered old entry)
    (hForward : 0 ≤ offset) (hInside : offset ≤ entry.notOnRdBufferLength)
    (hCeiling : offset + length ≤ ceiling entry.notOnRdBufferLength)
    (hFuel : wordSize < fuel + entry.notOnRdBufferLength) :
    ∃ result, expandBuffer heap offset length fuel entry = .ok result ∧
      offset + length ≤ result.notOnRdBufferLength := by
  induction fuel generalizing entry with
  | zero =>
    have hLess := hEntry.stored.capacity_lt
    omega
  | succ fuel ih =>
    have hLess := hEntry.stored.capacity_lt
    have hSpace : (entry.notOnRdBufferLength - offset) % (wordSize : Nat) =
        entry.notOnRdBufferLength - offset := by
      exact Int.emod_eq_of_lt (by omega) (by omega)
    rw [expandBuffer]
    split
    · -- The ceiling is higher, so that the buffer can and does grow.
      have hGrows : entry.notOnRdBufferLength < grown entry.notOnRdBufferLength ∧
          grown entry.notOnRdBufferLength < wordSize := by
        by_contra hStays
        rw [ceiling, if_neg hStays] at hCeiling
        omega
      have hEnlarged : enlarged entry.notOnRdBufferLength =
          .ok (grown entry.notOnRdBufferLength) := by
        rw [enlarged, if_pos hGrows.2]
      have hData := hEntry.stored.datalength_le
      have hCapacity := hEntry.stored.capacity hEntry.onBuffer
      obtain ⟨buffer, hBuffer⟩ := newBuffer_of_le heap (by omega : entry.datalength ≤
        grown entry.notOnRdBufferLength) hData
      have hNext := Buffered.of_newBuffer hEnlarged hBuffer hEntry.id hEntry.datalength
        hEntry.contents
      rw [← hEntry.onBuffer] at hNext
      obtain ⟨result, hResult, hRoom⟩ := ih hNext (by dsimp only; omega)
        (by dsimp only; rwa [ceiling_enlarged hEnlarged]) (by dsimp only; omega)
      exact ⟨result, bind_eq_ok_iff.mpr ⟨_, hEnlarged, bind_eq_ok_iff.mpr ⟨_, hBuffer, hResult⟩⟩,
        hRoom⟩
    · exact ⟨entry, rfl, by omega⟩

/-- Where the loop ends with room behind an offset, the offset was within the
first buffer already: from an offset behind it, the loop sees room that is not
there. -/
theorem offset_le_of_expandBuffer (hLess : result.notOnRdBufferLength < wordSize)
    (h : expandBuffer heap offset length fuel entry = .ok result)
    (hRoom : offset + length ≤ result.notOnRdBufferLength) :
    offset ≤ entry.notOnRdBufferLength := by
  by_contra hBehind
  cases fuel with
  | zero => cases h
  | succ fuel =>
    rw [expandBuffer] at h
    split at h
    · have hSpace : (entry.notOnRdBufferLength - offset) % (wordSize : Nat) =
          entry.notOnRdBufferLength - offset + wordSize := by
        rw [← Int.add_emod_right]
        exact Int.emod_eq_of_lt (by omega) (by omega)
      omega
    · cases h
      omega

/-- The loop gets the room for a write exactly when the offset is within the
first buffer and the end of the write is not above its ceiling. -/
theorem getsRoom_iff (hStored : Stored entry) (hForward : 0 ≤ content.offset) :
    GetsRoom heap content entry length ↔
      startCapacity entry < wordSize ∧ writeOffset content entry ≤ startCapacity entry ∧
        writeOffset content entry + length ≤ ceiling (startCapacity entry) := by
  have hOffset : 0 ≤ writeOffset content entry := by
    unfold writeOffset
    split
    · exact Int.natCast_nonneg _
    · exact hForward
  constructor
  · rintro ⟨moved, result, hMove, hExpand, hRoom⟩
    have hMoved := moveToBuffer_ok hStored hMove
    have hBuffered := (expandBuffer_ok hMoved hExpand).1
    rw [hBuffered.stored.capacity hBuffered.onBuffer] at hRoom
    have hInside := offset_le_of_expandBuffer hBuffered.stored.capacity_lt hExpand hRoom
    have hCeiling := expandBuffer_le_ceiling hExpand
    rw [← moveToBuffer_capacity hMove]
    exact ⟨hMoved.stored.capacity_lt, hInside, by omega⟩
  · rintro ⟨hFits, hInside, hCeiling⟩
    obtain ⟨moved, hMove⟩ := moveToBuffer_of_fits heap hStored hFits
    have hMoved := moveToBuffer_ok hStored hMove
    rw [← moveToBuffer_capacity hMove] at hInside hCeiling
    have hFuel : wordSize < wordSize + 1 + moved.notOnRdBufferLength := by omega
    obtain ⟨result, hResult, hRoom⟩ := expandBuffer_reaches hMoved hOffset hInside hCeiling hFuel
    have hBuffered := (expandBuffer_ok hMoved hResult).1
    refine ⟨moved, result, hMove, hResult, ?_⟩
    rwa [hBuffered.stored.capacity hBuffered.onBuffer]

/-- What descriptor 3 of process 1 refers to: the content and the entry. -/
def fileThree (fs : FileSystem) : Option (FileDescriptorContent × RamdiskEntry) := do
  let (node, _, content, _) ← ramdiskFile fs 1 3
  let entry ← fs.ramdisk.findById node.physFsID
  some (content, entry)

theorem fileThree_eq {fs : FileSystem} (h : fileThree fs = some (content, entry)) :
    ∃ node address next, ramdiskFile fs 1 3 = some (node, address, content, next) ∧
      fs.ramdisk.findById node.physFsID = some entry := by
  obtain ⟨⟨node, address, found, next⟩, hFile, h⟩ := bind_eq_some_iff.mp h
  obtain ⟨file, hEntry, h⟩ := bind_eq_some_iff.mp h
  cases h
  exact ⟨node, address, next, hFile, hEntry⟩

theorem twoReaders_count : ∀ call ∈ twoReaders, call.Counts := by
  intro call hMem
  fin_cases hMem <;> trivial

end Growth

end Kernel.FileSystem
