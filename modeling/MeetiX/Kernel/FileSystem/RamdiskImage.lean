import MeetiX.Kernel.FileSystem.Ramdisk

/-! The format of the ramdisk image. An image is written entry by entry; what
`load` reads from it are the entries that were written. -/
namespace Kernel.Ramdisk

open Base

inductive ImageContent
  | folder
  | file (data : List UInt8)
  deriving DecidableEq, Repr

/-- An entry of an image. Names are strings without a terminator in them. -/
structure ImageEntry where
  content : ImageContent
  id : Nat
  parentid : Nat
  name : CString
  id_lt : id < wordSize
  parentid_lt : parentid < wordSize
  name_ne : 0 ∉ name

def ImageContent.encode : ImageContent → List UInt8
  | .folder => []
  | .file data => wordBytes data.length ++ data

def ImageContent.code : ImageContent → UInt8
  | .folder => 0
  | .file _ => 1

def ImageEntry.encode (entry : ImageEntry) : List UInt8 :=
  entry.content.code :: (wordBytes entry.id ++ (wordBytes entry.parentid ++
    (wordBytes entry.name.length ++ (entry.name ++ entry.content.encode))))

def encodeImage (entries : List ImageEntry) : List UInt8 :=
  entries.flatMap ImageEntry.encode

def ImageEntry.header (entry : ImageEntry) : RamdiskEntry where
  type := match entry.content with
    | .folder => .folder
    | .file _ => .file
  id := entry.id
  parentid := entry.parentid
  name := entry.name
  datalength := match entry.content with
    | .folder => 0
    | .file data => data.length
  data := match entry.content with
    | .folder => none
    | .file data => some data
  dataOnRamdisk := true
  notOnRdBufferLength := 0

@[simp] theorem length_wordBytes (n : Nat) : (wordBytes n).length = 4 := rfl

theorem wordBytes_eq (n : Nat) : wordBytes n = littleEndianBytes 4 n := by
  simp [wordBytes, littleEndianBytes, Nat.div_div_eq_div_mul]

section Fetch

variable {memory : Nat → UInt8} {address : Nat}

/-- The memory as the kernel addresses it. -/
def addressed (memory : Nat → UInt8) (address : Nat) : UInt8 := memory (wrap32 address)

theorem fetch_eq {image : List UInt8} (h : Holds (addressed memory) address image) :
    fetch memory address image.length = image := h

theorem fetchWord_eq {n : Nat} (hn : n < wordSize) (h : Holds (addressed memory) address (wordBytes n)) :
    fetchWord memory address = n := by
  have hBytes : fetch memory address 4 = wordBytes n := h
  rw [fetchWord, hBytes, wordBytes_eq]
  exact littleEndian_bytes (lt_of_lt_of_eq hn rfl)

theorem cString_eq {name : CString} (h : 0 ∉ name) : cString name = name := by
  refine List.takeWhile_eq_self_iff.mpr fun byte hMem => ?_
  have hByte : byte ≠ 0 := by
    rintro rfl
    exact h hMem
  simpa using hByte

end Fetch

@[simp] theorem length_encode (entry : ImageEntry) :
    entry.encode.length = 13 + entry.name.length + entry.content.encode.length := by
  simp [ImageEntry.encode]
  omega

section Load

variable {memory : Nat → UInt8}

/-- One round of the loop reads one entry and stops right behind it. -/
theorem loadEntry_eq {ramdisk position : Nat} {entry : ImageEntry}
    (hHolds : Holds (addressed memory) (ramdisk + position) entry.encode)
    (hEnd : ramdisk + position + entry.encode.length < wordSize) :
    loadEntry memory ramdisk position = (entry.header, position + entry.encode.length) := by
  obtain ⟨hCode, hHolds⟩ := holds_cons.mp hHolds
  obtain ⟨hId, hHolds⟩ := holds_append.mp hHolds
  obtain ⟨hParentid, hHolds⟩ := holds_append.mp hHolds
  obtain ⟨hNamelength, hHolds⟩ := holds_append.mp hHolds
  obtain ⟨hName, hContent⟩ := holds_append.mp hHolds
  rw [length_encode] at hEnd ⊢
  simp only [length_wordBytes, Nat.add_assoc, Nat.reduceAdd] at hId hParentid hNamelength hName hContent
  have hNameLt : entry.name.length < wordSize := by omega
  have hPositions : wrap32 (position + 1) = position + 1 ∧
      wrap32 (position + 1 + 4) = position + 5 ∧ wrap32 (position + 5 + 4) = position + 9 ∧
      wrap32 (position + 9 + 4) = position + 13 ∧
      wrap32 (position + 13 + entry.name.length) = position + (13 + entry.name.length) := by
    refine ⟨wrap32_of_lt (by omega), wrap32_of_lt (by omega), wrap32_of_lt (by omega),
      wrap32_of_lt (by omega), ?_⟩
    rw [wrap32_of_lt (by omega), Nat.add_assoc]
  obtain ⟨hFirst, hSecond, hThird, hFourth, hFifth⟩ := hPositions
  have hType : memory (wrap32 (ramdisk + position)) = entry.content.code := hCode
  unfold loadEntry
  simp only [hType, hFirst, hSecond, hThird, hFourth, fetchWord_eq entry.id_lt hId,
    fetchWord_eq entry.parentid_lt hParentid, fetchWord_eq hNameLt hNamelength, fetch_eq hName,
    cString_eq entry.name_ne, hFifth]
  cases hKind : entry.content with
  | folder =>
    simp [ImageEntry.header, ImageContent.code, ImageContent.encode, entryType, hKind]
  | file data =>
    rw [hKind] at hContent hEnd
    obtain ⟨hDatalength, hData⟩ := holds_append.mp hContent
    simp only [ImageContent.encode, List.length_append, length_wordBytes] at hEnd
    have hDataLt : data.length < wordSize := by omega
    have hBehind : wrap32 (position + (13 + entry.name.length) + 4) =
        position + (13 + entry.name.length + 4) := by
      rw [wrap32_of_lt (by omega), Nat.add_assoc]
    have hLast : wrap32 (position + (13 + entry.name.length + 4) + data.length) =
        position + (13 + entry.name.length + (4 + data.length)) := by
      rw [wrap32_of_lt (by omega)]
      omega
    rw [length_wordBytes, Nat.add_assoc, Nat.add_assoc] at hData
    simp [ImageEntry.header, ImageContent.code, ImageContent.encode, entryType, hKind,
      fetchWord_eq hDataLt hDatalength, hBehind, fetch_eq hData, hLast]

def unusedAfter (nextUnusedId : Nat) (entry : ImageEntry) : Nat :=
  if nextUnusedId < entry.id then wrap32 (entry.id + 1) else nextUnusedId

/-- The loop reads the entries in their order and leaves at the end of the
last one. The induction is on the entries that are still ahead. -/
theorem loadEntries_eq {ramdisk position nextUnusedId fuel moduleEnd : Nat} {entries : List ImageEntry}
    (hHolds : Holds (addressed memory) (ramdisk + position) (encodeImage entries))
    (hModule : moduleEnd = ramdisk + position + (encodeImage entries).length)
    (hEnd : moduleEnd < wordSize) (hFuel : entries.length < fuel) :
    loadEntries memory ⟨ramdisk, moduleEnd⟩ fuel position nextUnusedId =
      some (entries.map ImageEntry.header, entries.foldl unusedAfter nextUnusedId,
        position + (encodeImage entries).length) := by
  induction entries generalizing position nextUnusedId fuel with
  | nil =>
    obtain ⟨fuel, rfl⟩ : ∃ k, fuel = k + 1 := ⟨fuel - 1, by simp at hFuel; omega⟩
    have hStop : ¬wrap32 (ramdisk + position) < moduleEnd := by
      simp only [encodeImage, List.flatMap_nil, List.length_nil] at hModule
      rw [wrap32_of_lt (by omega)]
      omega
    simp [loadEntries, hStop, encodeImage]
  | cons entry entries ih =>
    obtain ⟨fuel, rfl⟩ : ∃ k, fuel = k + 1 := ⟨fuel - 1, by simp at hFuel; omega⟩
    have hImage : encodeImage (entry :: entries) = entry.encode ++ encodeImage entries := rfl
    rw [hImage, List.length_append] at hModule ⊢
    obtain ⟨hEntry, hRest⟩ := holds_append.mp hHolds
    have hGo : wrap32 (ramdisk + position) < moduleEnd := by
      have hLength := length_encode entry
      rw [wrap32_of_lt (by omega)]
      omega
    have hRead := loadEntry_eq hEntry (by omega)
    rw [Nat.add_assoc] at hRest
    have hTail : loadEntries memory ⟨ramdisk, moduleEnd⟩ fuel (position + entry.encode.length)
        (unusedAfter nextUnusedId entry) = _ := ih hRest (by omega) (by simpa using hFuel)
    rw [loadEntries, if_pos hGo]
    rw [hRead]
    change (loadEntries memory ⟨ramdisk, moduleEnd⟩ fuel (position + entry.encode.length)
      (unusedAfter nextUnusedId entry)).map _ = _
    rw [hTail]
    simp [Nat.add_assoc]

/-- Every entry takes some bytes, so there are enough rounds for all of them. -/
theorem length_le_encodeImage (entries : List ImageEntry) :
    entries.length ≤ (encodeImage entries).length := by
  induction entries with
  | nil => exact le_refl _
  | cons entry entries ih =>
    have hImage : encodeImage (entry :: entries) = entry.encode ++ encodeImage entries := rfl
    rw [hImage, List.length_append, length_encode, List.length_cons]
    omega

theorem load_eq {moduleStart : Nat} {entries : List ImageEntry}
    (hHolds : Holds memory moduleStart (encodeImage entries))
    (hEnd : moduleStart + (encodeImage entries).length < wordSize) :
    load memory ⟨moduleStart, moduleStart + (encodeImage entries).length⟩ =
      some (⟨rootEntry, entries.map ImageEntry.header, entries.foldl unusedAfter 0⟩,
        (encodeImage entries).length) := by
  have hAddressed : Holds (addressed memory) (moduleStart + 0) (encodeImage entries) := by
    refine hHolds.congr fun i hi => ?_
    rw [addressed, wrap32_of_lt (by omega)]
  have hFuel : entries.length < wordSize + 1 := by
    have hLength := length_le_encodeImage entries
    omega
  have hRead : loadEntries memory ⟨moduleStart, _⟩ (wordSize + 1) 0 0 = _ :=
    loadEntries_eq hAddressed rfl (by simpa using hEnd) hFuel
  rw [Nat.add_zero, Nat.zero_add] at hRead
  rw [load, hRead]
  rfl

/-- An image that ends below the limit of the addresses is loaded as it was
written, and the loop stops at the end of the module. -/
theorem load_encodeImage (memory : Nat → UInt8) (moduleStart : Nat) (entries : List ImageEntry)
    (hHolds : Holds memory moduleStart (encodeImage entries))
    (hEnd : moduleStart + (encodeImage entries).length < wordSize) :
    ∃ ramdisk, load memory ⟨moduleStart, moduleStart + (encodeImage entries).length⟩ =
        some (ramdisk, (encodeImage entries).length) ∧
      ramdisk.root = rootEntry ∧ ramdisk.headers = entries.map ImageEntry.header :=
  ⟨_, load_eq hHolds hEnd, rfl, rfl⟩

/-- A folder and a file in it, at the address where boot loaders put modules. -/
theorem load_encodeImage_folder : ∃ ramdisk, load (fun address => (encodeImage
          [⟨.folder, 1, 0, [97], by decide, by decide, by decide⟩,
            ⟨.file [5, 0, 6], 2, 1, [98, 99], by decide, by decide, by decide⟩]).getD
          (address - 0x200000) 0) ⟨0x200000, 0x200024⟩ = some (ramdisk, 36) ∧
      ramdisk.root = rootEntry ∧
      ramdisk.headers = [⟨.folder, 1, 0, [97], 0, none, true, 0⟩,
        ⟨.file, 2, 1, [98, 99], 3, some [5, 0, 6], true, 0⟩] :=
  load_encodeImage _ 0x200000
    [⟨.folder, 1, 0, [97], by decide, by decide, by decide⟩,
      ⟨.file [5, 0, 6], 2, 1, [98, 99], by decide, by decide, by decide⟩] (by decide) (by decide)

end Load

end Kernel.Ramdisk
