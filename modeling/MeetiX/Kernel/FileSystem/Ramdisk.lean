import MeetiX.Base.Image
import MeetiX.Kernel.FileSystem.FsNode

/-! The entries of the ramdisk. The chain of headers is a list; an entry is found, and changed, as
the first one with its identifier. -/
namespace Kernel

/-- `RamdiskEntryType`, read from a byte of the module. -/
inductive RamdiskEntryType
  | folder
  | file
  | other (code : UInt8)
  deriving DecidableEq, Repr

/-- `RamdiskEntry`. The data is null or the bytes of its buffer. -/
structure RamdiskEntry where
  type : RamdiskEntryType
  id : Nat
  parentid : Nat
  name : CString
  datalength : Nat
  data : Option (List UInt8)
  dataOnRamdisk : Bool
  notOnRdBufferLength : Nat
  deriving DecidableEq, Repr

/-- The loaded ramdisk: the root entry, the other headers in the order of
their chain and the counter for new identifiers. -/
structure Ramdisk where
  root : RamdiskEntry
  headers : List RamdiskEntry
  nextUnusedId : Nat

namespace Ramdisk

def rootEntry : RamdiskEntry where
  type := .folder
  id := 0
  parentid := 0
  name := []
  datalength := 0
  data := none
  dataOnRamdisk := false
  notOnRdBufferLength := 0

/-- `MultibootModule`: where the boot loader has put the image. -/
structure MultibootModule where
  moduleStart : Nat
  moduleEnd : Nat
  deriving DecidableEq, Repr

def entryType (code : UInt8) : RamdiskEntryType :=
  if code = 0 then .folder else if code = 1 then .file else .other code

variable (memory : Nat → UInt8)

def fetch (address count : Nat) : List UInt8 :=
  Base.slice (fun a => memory (wrap32 a)) address count

def fetchWord (address : Nat) : Nat :=
  Base.littleEndian (fetch memory address 4)

/-- The string in a buffer with a terminator behind it. -/
def cString (buffer : List UInt8) : CString :=
  buffer.takeWhile (· ≠ 0)

/-- One round of the loop of `load`: the entry at a position and the position
behind it. The data of a file is not copied. -/
def loadEntry (ramdisk ramdiskPosition : Nat) : RamdiskEntry × Nat :=
  let type := entryType (memory (wrap32 (ramdisk + ramdiskPosition)))
  let idPosition := wrap32 (ramdiskPosition + 1)
  let parentidPosition := wrap32 (idPosition + 4)
  let namelengthPosition := wrap32 (parentidPosition + 4)
  let namePosition := wrap32 (namelengthPosition + 4)
  let namelength := fetchWord memory (ramdisk + namelengthPosition)
  let header : RamdiskEntry :=
    { type := type
      id := fetchWord memory (ramdisk + idPosition)
      parentid := fetchWord memory (ramdisk + parentidPosition)
      name := cString (fetch memory (ramdisk + namePosition) namelength)
      datalength := 0, data := none, dataOnRamdisk := true, notOnRdBufferLength := 0 }
  let restPosition := wrap32 (namePosition + namelength)
  if type = .file then
    let datalength := fetchWord memory (ramdisk + restPosition)
    let dataPosition := wrap32 (restPosition + 4)
    ({ header with
        datalength := datalength, data := some (fetch memory (ramdisk + dataPosition) datalength) },
      wrap32 (dataPosition + datalength))
  else (header, restPosition)

/-- The loop of `load` with the headers, the counter for new identifiers and
the position at its end. The position has 32 bits, so a loop that has made
`wordSize` rounds makes no end. -/
def loadEntries (memory : Nat → UInt8) (module : MultibootModule) :
    (fuel : Nat) → (ramdiskPosition nextUnusedId : Nat) → Option (List RamdiskEntry × Nat × Nat)
  | 0, _, _ => none
  | fuel + 1, ramdiskPosition, nextUnusedId =>
    if wrap32 (module.moduleStart + ramdiskPosition) < module.moduleEnd then
      let (header, behind) := loadEntry memory module.moduleStart ramdiskPosition
      let unused := if nextUnusedId < header.id then wrap32 (header.id + 1) else nextUnusedId
      (loadEntries memory module fuel behind unused).map fun (headers, last) =>
        (header :: headers, last)
    else some ([], nextUnusedId, ramdiskPosition)

/-- `load`, with the position at which it stops. -/
def load (module : MultibootModule) : Option (Ramdisk × Nat) :=
  (loadEntries memory module (wordSize + 1) 0 0).map fun (headers, nextUnusedId, ramdiskPosition) =>
    ({ root := rootEntry, headers := headers, nextUnusedId := nextUnusedId }, ramdiskPosition)

variable (ramdisk : Ramdisk)

/-- `findChild` looks at the first header before it asks whether there is one,
so without headers it follows the null pointer. -/
def findChild (parent : RamdiskEntry) (childName : CString) : Option (Option RamdiskEntry) :=
  match ramdisk.headers with
  | [] => none
  | headers =>
    some (headers.find? fun current => current.parentid = parent.id ∧ current.name = childName)

/-- `findById`. The parameter has 32 bits. -/
def findById (id : Nat) : Option RamdiskEntry :=
  if wrap32 id = 0 then some ramdisk.root
  else ramdisk.headers.find? fun current => current.id = wrap32 id

def changeFirst (id : Nat) (change : RamdiskEntry → RamdiskEntry) :
    List RamdiskEntry → List RamdiskEntry
  | [] => []
  | current :: next =>
    if current.id = id then change current :: next else current :: changeFirst id change next

def modifyById (id : Nat) (change : RamdiskEntry → RamdiskEntry) : Ramdisk :=
  if wrap32 id = 0 then { ramdisk with root := change ramdisk.root }
  else { ramdisk with headers := changeFirst (wrap32 id) change ramdisk.headers }

section Modify

variable {change : RamdiskEntry → RamdiskEntry} {id : Nat}

theorem find_changeFirst (hId : ∀ entry, entry.id = id → (change entry).id = id)
    (headers : List RamdiskEntry) :
    (changeFirst id change headers).find? (fun current => current.id = id) =
      (headers.find? fun current => current.id = id).map change := by
  induction headers with
  | nil => rfl
  | cons current next ih =>
    rw [changeFirst]
    by_cases hCurrent : current.id = id
    · rw [if_pos hCurrent, List.find?_cons_of_pos (by simp [hId current hCurrent]),
        List.find?_cons_of_pos (by simp [hCurrent])]
      rfl
    · rw [if_neg hCurrent, List.find?_cons_of_neg (by simp [hCurrent]),
        List.find?_cons_of_neg (by simp [hCurrent]), ih]

theorem findById_modifyById
    (hId : wrap32 id ≠ 0 → ∀ entry, entry.id = wrap32 id → (change entry).id = wrap32 id)
    (ramdisk : Ramdisk) : (ramdisk.modifyById id change).findById id = (ramdisk.findById id).map change := by
  rw [modifyById, findById, findById]
  by_cases hRoot : wrap32 id = 0
  · simp [hRoot]
  · simp only [hRoot]
    exact find_changeFirst (hId hRoot) ramdisk.headers

theorem id_of_findById {ramdisk : Ramdisk} {entry : RamdiskEntry} (h : ramdisk.findById id = some entry)
    (hRoot : wrap32 id ≠ 0) : entry.id = wrap32 id := by
  rw [findById, if_neg hRoot] at h
  simpa using List.find?_some h

end Modify

def createChild (parent : RamdiskEntry) (filename : CString) : RamdiskEntry × Ramdisk :=
  let newNode : RamdiskEntry :=
    { type := .file, id := ramdisk.nextUnusedId, parentid := parent.id, name := filename,
      datalength := 0, data := none, dataOnRamdisk := false, notOnRdBufferLength := 0 }
  (newNode, { ramdisk with
    headers := newNode :: ramdisk.headers
    nextUnusedId := wrap32 (ramdisk.nextUnusedId + 1) })

end Ramdisk

end Kernel
