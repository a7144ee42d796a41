import MeetiX.Base.Action
import MeetiX.Kernel.FileSystem.Open
import MeetiX.Kernel.FileSystem.RamdiskImage

/-! Reading and writing the files of the ramdisk. A file is read where the boot
loader has put it; the first write moves it into a buffer of its own, which is
enlarged when it is too small. -/
namespace Kernel.FileSystem

open Base List

inductive FsWriteStatus
  | successful
  | invalidFd
  | notSupported
  | busy
  | error
  deriving DecidableEq, Repr

inductive FsReadStatus
  | successful
  | invalidFd
  | busy
  | error
  deriving DecidableEq, Repr

/-- `FILE_FLAG_MODE_APPEND`. -/
def appends (openFlags : Int) : Bool := (BitVec.ofInt 32 openFlags).getLsbD 5

/-- A length times 1.2, cut off. The constant is the double below 1.2 and the x87 unit does not
round the product up again, so that a multiple of 5 misses the next integer. -/
def grown (length : Nat) : Nat := (length * 12 - 1) / 10

/-- The product as `uint32_t`. One that does not fit has no meaning. -/
def enlarged (length : Nat) : Outcome Nat :=
  if grown length < wordSize then .ok (grown length) else .error .bufferOverflow

/-- The number of bytes that `Memory::copy` copies. It counts in 32 bits. -/
def copyLength (length : Int) : Nat := (length % (wordSize : Nat)).toNat

/-- The first bytes of some data in a new buffer, which still has on its other
places what was in the heap. -/
def newBuffer (heap : Nat → UInt8) (buflen : Nat) (data : List UInt8) (datalength : Nat) :
    Outcome (List UInt8) :=
  if datalength ≤ buflen ∧ datalength ≤ data.length then
    .ok (data.take datalength ++ slice heap datalength (buflen - datalength))
  else .error .bufferOverflow

/-- A file is moved into a buffer by its first write. -/
def moveToBuffer (heap : Nat → UInt8) (ramdiskNode : RamdiskEntry) : Outcome RamdiskEntry :=
  if ramdiskNode.dataOnRamdisk then do
    let buflen ← enlarged ramdiskNode.datalength
    let buffer ← newBuffer heap buflen (ramdiskNode.data.getD []) ramdiskNode.datalength
    .ok { ramdiskNode with data := some buffer, notOnRdBufferLength := buflen, dataOnRamdisk := false }
  else
    match ramdiskNode.data with
    | some _ => .ok ramdiskNode
    | none => .ok { ramdiskNode with data := some (slice heap 0 32), notOnRdBufferLength := 32 }

/-- The loop that enlarges the buffer. A round that gains nothing is followed by
the same round again, and a buffer has less than `wordSize` bytes. -/
def expandBuffer (heap : Nat → UInt8) (offset length : Int) :
    (fuel : Nat) → RamdiskEntry → Outcome RamdiskEntry
  | 0, _ => .error .outOfFuel
  | fuel + 1, ramdiskNode =>
    let space := (ramdiskNode.notOnRdBufferLength - offset) % (wordSize : Nat)
    if space < length then do
      let buflen ← enlarged ramdiskNode.notOnRdBufferLength
      let buffer ← newBuffer heap buflen (ramdiskNode.data.getD []) ramdiskNode.datalength
      expandBuffer heap offset length fuel
        { ramdiskNode with data := some buffer, notOnRdBufferLength := buflen }
    else .ok ramdiskNode

/-- The last part of a write: the bytes of the caller go into the buffer, and
the file ends behind them. -/
def store (buffer : Nat → UInt8) (offset length : Int) (ramdiskNode : RamdiskEntry) :
    Outcome RamdiskEntry :=
  let data := ramdiskNode.data.getD []
  if 0 ≤ offset ∧ offset.toNat + copyLength length ≤ data.length then
    .ok { ramdiskNode with
      data := some (data.take offset.toNat ++ slice buffer 0 (copyLength length) ++
        data.drop (offset.toNat + copyLength length))
      datalength := ((offset + length) % (wordSize : Nat)).toNat }
  else .error .bufferOverflow

def writeEntry (heap : Nat → UInt8) (length : Int) (buffer : Nat → UInt8) (fd : FileDescriptorContent)
    (ramdiskNode : RamdiskEntry) : Outcome (RamdiskEntry × FileDescriptorContent) := do
  let ramdiskNode ← moveToBuffer heap ramdiskNode
  let offset := if appends fd.openFlags then (ramdiskNode.datalength : Int) else fd.offset
  let ramdiskNode ← expandBuffer heap offset length (wordSize + 1) ramdiskNode
  let ramdiskNode ← store buffer offset length ramdiskNode
  .ok (ramdiskNode, { fd with offset := offset + length })

/-- The fields of the handler of a read or a write that the delegate sets. -/
structure TransferHandler (Status : Type) where
  repeated : Option Nat
  status : Status
  result : Int
  deriving DecidableEq, Repr

/-- The transaction is a new one or the one that is repeated. -/
def startTransfer (fs : FileSystem) (repeated : Option Nat) : Nat × FileSystem :=
  match repeated with
  | some id => (id, fs)
  | none =>
    let (id, transactions) := fs.transactions.nextTransaction
    (id, { fs with transactions := transactions })

def finishTransfer (fs : FileSystem) (id : Nat) : FileSystem :=
  { fs with transactions := fs.transactions.setStatus id .finished }

/-- `FsDelegateRamdisk::requestWrite`. The buffer is the memory of the caller. -/
def requestWrite (heap : Nat → UInt8) (fs : FileSystem) (node : FsNode) (length : Int)
    (buffer : Nat → UInt8) (fd : FileDescriptorContent) (handler : TransferHandler FsWriteStatus) :
    Outcome (FileSystem × FileDescriptorContent × TransferHandler FsWriteStatus) :=
  let (id, fs) := startTransfer fs handler.repeated
  match fs.ramdisk.findById node.physFsID with
  | none => .ok (finishTransfer fs id, fd, { handler with status := .invalidFd })
  | some ramdiskNode => do
      let (written, fd) ← writeEntry heap length buffer fd ramdiskNode
      let ramdisk := fs.ramdisk.modifyById node.physFsID fun _ => written
      .ok (finishTransfer { fs with ramdisk := ramdisk } id, fd,
        { handler with status := .successful, result := length })

/-- `FsDelegateRamdisk::requestRead`, with the bytes that it copies. Where the end of the read
does not fit into 64 bits, the length is not cut at the end of the file and the copy leaves the
buffer. -/
def requestRead (fs : FileSystem) (node : FsNode) (length : Int) (fd : FileDescriptorContent)
    (handler : TransferHandler FsReadStatus) :
    Outcome (FileSystem × FileDescriptorContent × TransferHandler FsReadStatus × List UInt8) :=
  let (id, fs) := startTransfer fs handler.repeated
  match fs.ramdisk.findById node.physFsID with
  | none => .ok (finishTransfer fs id, fd, { handler with status := .invalidFd }, [])
  | some ramdiskNode =>
    match ramdiskNode.data with
    | none => .ok (finishTransfer fs id, fd, { handler with status := .error }, [])
    | some data =>
      let copyAmount : Int :=
        if (ramdiskNode.datalength : Int) ≤ fd.offset + length then ramdiskNode.datalength - fd.offset
        else length
      let handler := { handler with status := .successful, result := copyAmount }
      if 2 ^ 63 ≤ fd.offset + length then .error .bufferOverflow
      else if 0 < copyAmount then
        if 0 ≤ fd.offset ∧ fd.offset.toNat + copyLength copyAmount ≤ data.length then
          .ok (finishTransfer fs id, { fd with offset := fd.offset + copyAmount }, handler,
            (data.drop fd.offset.toNat).take (copyLength copyAmount))
        else .error .bufferOverflow
      else .ok (finishTransfer fs id, fd, handler, [])

def contents (entry : RamdiskEntry) : List UInt8 :=
  (entry.data.getD []).take entry.datalength

/-- The data of an entry is where its fields say. -/
structure Stored (entry : RamdiskEntry) : Prop where
  datalength_lt : entry.datalength < wordSize
  datalength_le : entry.datalength ≤ (entry.data.getD []).length
  capacity : entry.dataOnRamdisk = false → (entry.data.getD []).length = entry.notOnRdBufferLength
  capacity_lt : entry.notOnRdBufferLength < wordSize

variable {entry old result : RamdiskEntry} {length offset : Int} {buflen id : Nat}
  {heap buffer : Nat → UInt8} {ramdisk : Ramdisk} {change : RamdiskEntry → RamdiskEntry}

theorem Stored.length_contents (h : Stored entry) : (contents entry).length = entry.datalength := by
  rw [contents, length_take]
  exact Nat.min_eq_left h.datalength_le

/-- The entry has the same bytes as before and keeps them in a buffer. -/
structure Buffered (old entry : RamdiskEntry) : Prop where
  stored : Stored entry
  onBuffer : entry.dataOnRamdisk = false
  id : entry.id = old.id
  datalength : entry.datalength = old.datalength
  contents : contents entry = contents old

theorem enlarged_ok {length : Nat} (h : enlarged length = .ok buflen) : buflen < wordSize := by
  unfold enlarged at h
  split at h
  · cases h
    assumption
  · cases h

theorem newBuffer_ok {datalength : Nat} {data buffer : List UInt8}
    (h : newBuffer heap buflen data datalength = .ok buffer) :
    buffer.length = buflen ∧ datalength ≤ buflen ∧ buffer.take datalength = data.take datalength := by
  unfold newBuffer at h
  split at h
  · rename_i hFits
    cases h
    have hTake : (data.take datalength).length = datalength := by
      rw [length_take]
      omega
    refine ⟨by simp only [length_append, length_slice]; omega, hFits.1, ?_⟩
    rw [take_append_of_le_length (le_of_eq hTake.symm), take_take, Nat.min_self]
  · cases h

theorem Buffered.of_newBuffer {length : Nat}
    {buffer : List UInt8} (hBuflen : enlarged length = .ok buflen)
    (hBuffer : newBuffer heap buflen (entry.data.getD []) entry.datalength = .ok buffer)
    (hId : entry.id = old.id) (hLength : entry.datalength = old.datalength)
    (hContents : FileSystem.contents entry = FileSystem.contents old) :
    Buffered old { entry with data := some buffer, notOnRdBufferLength := buflen, dataOnRamdisk := false } := by
  obtain ⟨hSize, hFits, hTake⟩ := newBuffer_ok hBuffer
  have hLess := enlarged_ok hBuflen
  refine ⟨⟨lt_of_le_of_lt hFits hLess, ?_, fun _ => hSize, hLess⟩, rfl, hId, hLength, ?_⟩
  · exact le_of_le_of_eq hFits hSize.symm
  · rw [← hContents]
    exact hTake

theorem moveToBuffer_ok (hStored : Stored old)
    (h : moveToBuffer heap old = .ok entry) : Buffered old entry := by
  unfold moveToBuffer at h
  split at h
  · obtain ⟨buflen, hBuflen, h⟩ := bind_eq_ok_iff.mp h
    obtain ⟨buffer, hBuffer, h⟩ := bind_eq_ok_iff.mp h
    cases h
    exact Buffered.of_newBuffer hBuflen hBuffer rfl rfl rfl
  · rename_i hRamdisk
    rw [Bool.not_eq_true] at hRamdisk
    split at h
    · cases h
      exact ⟨hStored, hRamdisk, rfl, rfl, rfl⟩
    · rename_i hData
      cases h
      have hEmpty : old.datalength = 0 := by
        have hLength := hStored.datalength_le
        rw [hData] at hLength
        exact Nat.le_zero.mp hLength
      refine ⟨⟨hStored.datalength_lt, ?_, fun _ => by simp, (by decide : 32 < wordSize)⟩, hRamdisk, rfl,
        rfl, ?_⟩
      · rw [hEmpty]
        exact Nat.zero_le _
      · simp [contents, hEmpty]

/-- When the loop ends there is room for the bytes, and the file is as it was. -/
theorem expandBuffer_ok {fuel : Nat} (hEntry : Buffered old entry)
    (h : expandBuffer heap offset length fuel entry = .ok result) :
    Buffered old result ∧ length ≤ (result.notOnRdBufferLength - offset) % (wordSize : Nat) := by
  induction fuel generalizing entry with
  | zero => cases h
  | succ fuel ih =>
    rw [expandBuffer] at h
    split at h
    · obtain ⟨buflen, hBuflen, h⟩ := bind_eq_ok_iff.mp h
      obtain ⟨buffer, hBuffer, h⟩ := bind_eq_ok_iff.mp h
      have hNext := Buffered.of_newBuffer hBuflen hBuffer hEntry.id hEntry.datalength hEntry.contents
      rw [← hEntry.onBuffer] at hNext
      exact ih hNext h
    · rename_i hSpace
      cases h
      exact ⟨hEntry, not_lt.mp hSpace⟩

/-- The file ends behind the bytes that were written. -/
theorem store_ok (hStored : Stored entry) (hBuffer : entry.dataOnRamdisk = false)
    (h : store buffer offset length entry = .ok result) :
    Stored result ∧ result.dataOnRamdisk = false ∧ result.id = entry.id ∧
      result.datalength = offset.toNat + copyLength length ∧
      contents result = (entry.data.getD []).take offset.toNat ++ slice buffer 0 (copyLength length) := by
  unfold store at h
  dsimp only at h
  split at h
  · cases h
    have hCapacity := hStored.capacity hBuffer
    have hLess := hStored.capacity_lt
    have hEnd : ((offset + length) % (wordSize : Nat)).toNat = offset.toNat + copyLength length := by
      unfold copyLength wordSize at *
      omega
    have hTake : ((entry.data.getD []).take offset.toNat).length = offset.toNat := by
      rw [length_take]
      omega
    have hLength : ((entry.data.getD []).take offset.toNat ++ slice buffer 0 (copyLength length)).length =
        offset.toNat + copyLength length := by
      rw [length_append, hTake, length_slice]
    refine ⟨⟨?_, ?_, fun _ => ?_, hLess⟩, hBuffer, rfl, hEnd, ?_⟩
    · dsimp only
      omega
    · dsimp only [Option.getD_some]
      rw [length_append]
      omega
    · dsimp only [Option.getD_some]
      rw [length_append, length_drop]
      omega
    · rw [hEnd, ← hLength]
      exact take_left
  · cases h

/-- What a write does to an entry, wherever the descriptor stands. -/
theorem writeEntry_ok {fd fd' : FileDescriptorContent} (hStored : Stored old)
    (h : writeEntry heap length buffer fd old = .ok (result, fd')) :
    Stored result ∧ result.id = old.id ∧ ∃ offset entry,
      offset = (if appends fd.openFlags then (old.datalength : Int) else fd.offset) ∧
      Buffered old entry ∧ length ≤ (entry.notOnRdBufferLength - offset) % (wordSize : Nat) ∧
      fd' = { fd with offset := offset + length } ∧
      result.datalength = offset.toNat + copyLength length ∧
      contents result = (entry.data.getD []).take offset.toNat ++ slice buffer 0 (copyLength length) := by
  obtain ⟨moved, hMove, h⟩ := bind_eq_ok_iff.mp h
  obtain ⟨expanded, hExpand, h⟩ := bind_eq_ok_iff.mp h
  obtain ⟨written, hStore, h⟩ := bind_eq_ok_iff.mp h
  have hMoved := moveToBuffer_ok hStored hMove
  obtain ⟨hExpanded, hSpace⟩ := expandBuffer_ok hMoved hExpand
  obtain ⟨hResult, -, hId, hLength, hContents⟩ := store_ok hExpanded.stored hExpanded.onBuffer hStore
  cases h
  rw [hMoved.datalength] at *
  exact ⟨hResult, hId.trans hExpanded.id, _, expanded, rfl, hExpanded, hSpace, rfl, hLength, hContents⟩

/-- What is asked of a write at an offset of a file: the bytes are there, the
others are as before, and the file has grown if it had to. -/
structure Overwrites (old new : RamdiskEntry) (offset length : Nat) (buffer : Nat → UInt8) : Prop where
  bytes : ∀ i < length, (contents new)[offset + i]? = some (buffer i)
  others : ∀ i < old.datalength, i < offset ∨ offset + length ≤ i →
    (contents new)[i]? = (contents old)[i]?
  datalength : new.datalength = max old.datalength (offset + length)

/-- A write within a file leaves nothing behind the bytes that were written. -/
theorem overwrites_iff {new : RamdiskEntry} {offset length : Nat}
    (hStored : Stored old) (hOffset : offset ≤ old.datalength)
    (hLength : new.datalength = offset + length)
    (hContents : contents new = (contents old).take offset ++ slice buffer 0 length) :
    Overwrites old new offset length buffer ↔ old.datalength ≤ offset + length := by
  have hTake : ((contents old).take offset).length = offset := by
    rw [length_take, hStored.length_contents]
    omega
  constructor
  · intro h
    have hMax := h.datalength
    omega
  · intro hEnd
    refine ⟨fun i hi => ?_, fun i hi hOutside => ?_, by omega⟩
    · rw [hContents, getElem?_append_right (by omega), hTake, Nat.add_sub_cancel_left,
        getElem?_slice hi, Nat.zero_add]
    · rw [hContents, getElem?_append_left (by omega), getElem?_take_of_lt (by omega)]

theorem Buffered.take_data (h : Buffered old entry) {offset : Nat}
    (hOffset : offset ≤ old.datalength) : (entry.data.getD []).take offset = (FileSystem.contents old).take offset := by
  rw [← h.contents, FileSystem.contents, take_take, h.datalength, Nat.min_eq_left hOffset]

/-- A write that does not append and stands within the file overwrites its part
of the file and nothing else exactly when the file has nothing behind that
part. -/
theorem requestWrite_overwrites_iff {heap : Nat → UInt8} {fs fs' : FileSystem} {node : FsNode}
    {buffer : Nat → UInt8} {fd fd' : FileDescriptorContent} {handler handler' : TransferHandler FsWriteStatus}
    {old : RamdiskEntry} {offset length : Nat}
    (hEntry : fs.ramdisk.findById node.physFsID = some old) (hStored : Stored old)
    (hAppend : appends fd.openFlags = false) (hOffset : fd.offset = offset)
    (hInside : offset ≤ old.datalength)
    (hRun : requestWrite heap fs node length buffer fd handler = .ok (fs', fd', handler')) :
    (handler'.status = .successful ∧ fd'.offset = offset + length ∧
      ∃ new, fs'.ramdisk.findById node.physFsID = some new ∧ Overwrites old new offset length buffer) ↔
      old.datalength ≤ offset + length := by
  have hFound : (startTransfer fs handler.repeated).2.ramdisk = fs.ramdisk := by
    unfold startTransfer
    split <;> rfl
  unfold requestWrite at hRun
  dsimp only at hRun
  rw [hFound, hEntry] at hRun
  obtain ⟨⟨written, moved⟩, hWrite, hRun⟩ := bind_eq_ok_iff.mp hRun
  cases hRun
  obtain ⟨hWritten, hId, position, entry, hPosition, hBuffered, hSpace, rfl, hLength, hContents⟩ :=
    writeEntry_ok hStored hWrite
  rw [hAppend, hOffset] at hPosition
  obtain rfl : position = (offset : Int) := hPosition
  -- There is room for all the bytes, so none of the sums overflows.
  have hRoom : copyLength length = length := by
    unfold copyLength wordSize at *
    omega
  rw [Int.toNat_natCast, hRoom] at hLength hContents
  rw [hBuffered.take_data hInside] at hContents
  have hFind : (fs.ramdisk.modifyById node.physFsID fun _ => written).findById node.physFsID =
      some written := by
    rw [Ramdisk.findById_modifyById, hEntry]
    · rfl
    · intro hRoot _ _
      rw [hId]
      exact Ramdisk.id_of_findById hEntry hRoot
  rw [← overwrites_iff hStored hInside hLength hContents]
  constructor
  · rintro ⟨-, -, new, hNew, hOverwrites⟩
    obtain rfl : written = new := Option.some.inj (hFind.symm.trans hNew)
    exact hOverwrites
  · intro hOverwrites
    exact ⟨rfl, rfl, written, hFind, hOverwrites⟩

def firstFileNode : FsNode := { FsNode.new with physFsID := 1, type := .file }

def sixBytes : FileSystem :=
  initial ⟨Ramdisk.rootEntry, [⟨.file, 1, 0, [97], 6, some [1, 2, 3, 4, 5, 6], true, 0⟩], 2⟩

/-- The last byte is overwritten and one more is written behind it. -/
theorem requestWrite_overwrites_iff_last :
    ∃ fs' fd' handler', requestWrite (fun _ => 0) sixBytes firstFileNode (2 : Nat) (fun _ => 9)
        ⟨3, 5, 7, 2⟩ ⟨none, .error, -1⟩ = .ok (fs', fd', handler') ∧
      handler'.status = .successful ∧ fd'.offset = (5 : Nat) + (2 : Nat) ∧
      ∃ new, fs'.ramdisk.findById firstFileNode.physFsID = some new ∧
        Overwrites ⟨.file, 1, 0, [97], 6, some [1, 2, 3, 4, 5, 6], true, 0⟩ new 5 2 (fun _ => 9) := by
  have hEntry : sixBytes.ramdisk.findById firstFileNode.physFsID =
      some ⟨.file, 1, 0, [97], 6, some [1, 2, 3, 4, 5, 6], true, 0⟩ := rfl
  have hRun : requestWrite (fun _ => 0) sixBytes firstFileNode (2 : Nat) (fun _ => 9) ⟨3, 5, 7, 2⟩
      ⟨none, .error, -1⟩ = .ok (_, _, _) := rfl
  refine ⟨_, _, _, hRun, ?_⟩
  exact (requestWrite_overwrites_iff hEntry ⟨by decide, by decide, by decide, by decide⟩ (by decide) rfl
    (by decide) hRun).mpr (by decide)

/-- The first byte is overwritten, and the other five are gone. -/
theorem requestWrite_cuts_file :
    ∃ fs' fd' handler' new, requestWrite (fun _ => 0) sixBytes firstFileNode (1 : Nat) (fun _ => 9)
        ⟨3, 0, 7, 2⟩ ⟨none, .error, -1⟩ = .ok (fs', fd', handler') ∧
      handler'.status = .successful ∧ fs'.ramdisk.findById firstFileNode.physFsID = some new ∧
      new.datalength = 1 ∧ contents new = [9] ∧
      ¬Overwrites ⟨.file, 1, 0, [97], 6, some [1, 2, 3, 4, 5, 6], true, 0⟩ new 0 1 (fun _ => 9) := by
  have hRun : requestWrite (fun _ => 0) sixBytes firstFileNode (1 : Nat) (fun _ => 9) ⟨3, 0, 7, 2⟩
      ⟨none, .error, -1⟩ = .ok (_, _, _) := rfl
  refine ⟨_, _, _, _, hRun, rfl, rfl, rfl, rfl, fun h => ?_⟩
  have hLength := h.datalength
  revert hLength
  decide

/-- The loop of a write cannot end when it starts with at most five bytes and
these are too few: 1.2 times their number is their number again. -/
theorem expandBuffer_stuck (hFew : entry.notOnRdBufferLength ≤ 5)
    (hSpace : (entry.notOnRdBufferLength - offset) % (wordSize : Nat) < length) (fuel : Nat) :
    ∀ result, expandBuffer heap offset length fuel entry ≠ .ok result := by
  induction fuel generalizing entry with
  | zero => simp [expandBuffer]
  | succ fuel ih =>
    intro result h
    rw [expandBuffer, if_pos hSpace] at h
    obtain ⟨buflen, hBuflen, h⟩ := bind_eq_ok_iff.mp h
    obtain ⟨buffer, -, h⟩ := bind_eq_ok_iff.mp h
    have hSame : buflen = entry.notOnRdBufferLength := by
      unfold enlarged at hBuflen
      split at hBuflen
      · cases hBuflen
        unfold grown
        omega
      · cases hBuflen
    subst hSame
    refine ih ?_ ?_ result h
    · exact hFew
    · exact hSpace

inductive FileEvent
  | create (parent : RamdiskEntry) (filename : CString)
  | truncate (id : Nat) (flags : BitVec 32)
  | write (id : Nat) (length : Int) (buffer : Nat → UInt8) (fd : FileDescriptorContent)

inductive FileStep : Ramdisk → FileEvent → Ramdisk → Prop where
  | create (ramdisk : Ramdisk) (parent : RamdiskEntry) (filename : CString) :
      FileStep ramdisk (.create parent filename) (ramdisk.createChild parent filename).2
  | truncate (ramdisk : Ramdisk) (id : Nat) (flags : BitVec 32) :
      FileStep ramdisk (.truncate id flags) (ramdisk.modifyById id (FileSystem.truncate flags))
  | write {ramdisk : Ramdisk} {heap : Nat → UInt8} {id : Nat} {length : Int} {buffer : Nat → UInt8}
      {fd fd' : FileDescriptorContent} {ramdiskNode written : RamdiskEntry}
      (hEntry : ramdisk.findById id = some ramdiskNode)
      (hWrite : writeEntry heap length buffer fd ramdiskNode = .ok (written, fd')) :
      FileStep ramdisk (.write id length buffer fd) (ramdisk.modifyById id fun _ => written)

structure AllStored (ramdisk : Ramdisk) : Prop where
  root : Stored ramdisk.root
  headers : ∀ entry ∈ ramdisk.headers, Stored entry

theorem AllStored.findById (h : AllStored ramdisk)
    (hFind : ramdisk.findById id = some entry) : Stored entry := by
  rw [Ramdisk.findById] at hFind
  split at hFind
  · cases hFind
    exact h.root
  · exact h.headers entry (mem_of_find?_eq_some hFind)

theorem stored_changeFirst {headers : List RamdiskEntry} (h : ∀ entry ∈ headers, Stored entry)
    (hChange : ∀ entry, headers.find? (fun current => current.id = id) = some entry → Stored (change entry)) :
    ∀ entry ∈ Ramdisk.changeFirst id change headers, Stored entry := by
  induction headers with
  | nil => simp [Ramdisk.changeFirst]
  | cons current next ih =>
    obtain ⟨hCurrent, hNext⟩ := forall_mem_cons.mp h
    rw [Ramdisk.changeFirst]
    by_cases hId : current.id = id
    · rw [if_pos hId]
      refine forall_mem_cons.mpr ⟨hChange current ?_, hNext⟩
      rw [find?_cons_of_pos (by simpa using hId)]
    · rw [if_neg hId]
      refine forall_mem_cons.mpr ⟨hCurrent, ih hNext fun entry hFind => hChange entry ?_⟩
      rwa [find?_cons_of_neg (by simpa using hId)]

theorem AllStored.modifyById (h : AllStored ramdisk)
    (hChange : ∀ entry, ramdisk.findById id = some entry → Stored (change entry)) :
    AllStored (ramdisk.modifyById id change) := by
  unfold Ramdisk.findById at hChange
  unfold Ramdisk.modifyById
  split
  · rename_i hRoot
    rw [if_pos hRoot] at hChange
    exact ⟨hChange _ rfl, h.headers⟩
  · rename_i hRoot
    rw [if_neg hRoot] at hChange
    exact ⟨h.root, stored_changeFirst h.headers hChange⟩

theorem Stored.truncate (h : Stored entry) (flags : BitVec 32) :
    Stored (FileSystem.truncate flags entry) := by
  unfold FileSystem.truncate
  split
  · exact ⟨(by decide : 0 < wordSize), le_refl _, fun _ => rfl, (by decide : 0 < wordSize)⟩
  · exact h

theorem FileStep.allStored {ramdisk' : Ramdisk} {event : FileEvent}
    (hStep : FileStep ramdisk event ramdisk') (h : AllStored ramdisk) : AllStored ramdisk' := by
  cases hStep with
  | create parent filename =>
    refine ⟨h.root, forall_mem_cons.mpr ⟨?_, h.headers⟩⟩
    exact ⟨(by decide : 0 < wordSize), le_refl _, fun _ => rfl, (by decide : 0 < wordSize)⟩
  | truncate id flags => exact h.modifyById fun entry hFind => (h.findById hFind).truncate flags
  | write hEntry hWrite => exact h.modifyById fun _ _ => (writeEntry_ok (h.findById hEntry) hWrite).1

end Kernel.FileSystem
