import MeetiX.Kernel.Utils.HashMap

/-! The descriptor tables of the processes. A table holds pointers to contents on the kernel heap,
which can be shared or deleted; a function that follows a pointer to a deleted one has no result.
A new content gets an address that was not used before. -/
namespace Kernel

open Function HashMap

/-- `Fd`, a signed 32-bit number. -/
abbrev Fd := Int

structure FileDescriptorContent where
  id : Fd
  offset : Int
  nodeID : Nat
  openFlags : Int
  deriving DecidableEq, Repr

def FileDescriptorContent.cloneInto (content other : FileDescriptorContent) :
    FileDescriptorContent :=
  { other with offset := content.offset, nodeID := content.nodeID, openFlags := content.openFlags }

structure FileDescriptorTable where
  nextFileDescriptor : Fd
  descriptors : HashMap Fd Nat

/-- A new table skips stdin, stdout and stderr. -/
def FileDescriptorTable.new : FileDescriptorTable := ⟨3, empty⟩

/-- The static state of `FileDescriptors` and the contents on the heap. -/
structure FileDescriptors where
  processDescriptorTableMap : HashMap Pid FileDescriptorTable
  contents : Nat → Option FileDescriptorContent
  nextContent : Nat

namespace FileDescriptors

def initial : FileDescriptors := ⟨empty, fun _ => none, 0⟩

variable (store : FileDescriptors)

variable (pid : Pid)

/-- `getProcessTable`, which creates the table of a process without one. -/
def getProcessTable : FileDescriptorTable × FileDescriptors :=
  match store.processDescriptorTableMap.get pid with
  | some table => (table, store)
  | none =>
    (.new, { store with
      processDescriptorTableMap := store.processDescriptorTableMap.add pid .new })

def setTable (table : FileDescriptorTable) : FileDescriptors :=
  { store with processDescriptorTableMap := store.processDescriptorTableMap.assign pid table }

/-- The number that `createDescriptor` picks. -/
def descriptorFor (table : FileDescriptorTable) (overrideFd : Fd) : Fd :=
  if overrideFd = -1 then table.nextFileDescriptor else overrideFd

/-- `createDescriptor` enters the address of a new content in the table. -/
def createDescriptor (table : FileDescriptorTable) (overrideFd : Fd) : Fd × Nat × FileDescriptors :=
  let descriptor := descriptorFor table overrideFd
  let next :=
    if overrideFd = -1 then Int.bmod (table.nextFileDescriptor + 1) wordSize
    else table.nextFileDescriptor
  let store := store.setTable pid ⟨next, table.descriptors.add descriptor store.nextContent⟩
  (descriptor, store.nextContent, { store with nextContent := store.nextContent + 1 })

/-- `map`, which fills in the fields of the new content. -/
def map (nodeID : Nat) (fd : Fd) (openFlags : Int) : Fd × FileDescriptors :=
  let (processTable, store) := store.getProcessTable pid
  let (descriptor, desc, store) := store.createDescriptor pid processTable fd
  (descriptor, { store with
    contents := update store.contents desc (some ⟨descriptor, 0, nodeID, openFlags⟩) })

def unmap (fd : Fd) : Option FileDescriptors :=
  let (processTable, store) := store.getProcessTable pid
  match processTable.descriptors.get fd with
  | none => some store
  | some entry =>
    match store.contents entry with
    | none => none
    | some content =>
      let table := { processTable with
        descriptors := processTable.descriptors.erase content.id }
      some { store.setTable pid table with
        contents := update store.contents entry none }

/-- `unmapAll`, which deletes the contents and the table. -/
def unmapAll : FileDescriptors :=
  let (processTable, store) := store.getProcessTable pid
  { store with
    processDescriptorTableMap := store.processDescriptorTableMap.erase pid
    contents := fun address =>
      if address ∈ processTable.descriptors.values then none else store.contents address }

def get (store : FileDescriptors) (pid : Pid) (fd : Fd) : Option Nat × FileDescriptors :=
  let (processTable, store) := store.getProcessTable pid
  (processTable.descriptors.get fd, store)

/-- A write through the address of a content. -/
def modifyContent (address : Nat)
    (change : FileDescriptorContent → FileDescriptorContent) : Option FileDescriptors :=
  match store.contents address with
  | none => none
  | some content =>
    some { store with contents := update store.contents address (some (change content)) }

/-- The entry of a table, as an address. -/
def pointer (fd : Fd) : Option Nat :=
  (store.processDescriptorTableMap.get pid).bind fun table => table.descriptors.get fd

/-- The entry of a table, as what it means to the process. -/
def descriptor (fd : Fd) : Option FileDescriptorContent :=
  (store.pointer pid fd).bind store.contents

def nextFileDescriptor (store : FileDescriptors) (pid : Pid) : Fd :=
  (store.getProcessTable pid).1.nextFileDescriptor

/-- Every entry points to a content of its own that bears its number. -/
structure Valid : Prop where
  live : ∀ pid fd address, store.pointer pid fd = some address →
    ∃ content, store.contents address = some content ∧ content.id = fd
  apart : ∀ pid fd pid' fd' address, store.pointer pid fd = some address →
    store.pointer pid' fd' = some address → pid = pid' ∧ fd = fd'
  fresh : ∀ address, store.contents address ≠ none → address < store.nextContent

theorem initial_valid : initial.Valid where
  live _ _ _ h := by cases h
  apart _ _ _ _ _ h := by cases h
  fresh _ h := absurd rfl h

section Table

variable (store : FileDescriptors) (pid : Pid)

theorem getProcessTable_descriptors (fd : Fd) :
    (store.getProcessTable pid).1.descriptors.get fd = store.pointer pid fd := by
  rw [getProcessTable, pointer]
  split
  · rename_i hTable
    rw [hTable]
    rfl
  · rename_i hTable
    rw [hTable]
    rfl

@[simp] theorem pointer_getProcessTable : (store.getProcessTable pid).2.pointer = store.pointer := by
  funext other fd
  rw [getProcessTable]
  split
  · rfl
  · rename_i hTable
    rw [pointer, pointer, get_add]
    split
    · rename_i h
      rw [← h, hTable]
      rfl
    · rfl

@[simp] theorem contents_getProcessTable :
    (store.getProcessTable pid).2.contents = store.contents := by
  rw [getProcessTable]
  split <;> rfl

@[simp] theorem nextContent_getProcessTable :
    (store.getProcessTable pid).2.nextContent = store.nextContent := by
  rw [getProcessTable]
  split <;> rfl

theorem pointer_setTable (table : FileDescriptorTable) (other : Pid) (fd : Fd) :
    (store.setTable pid table).pointer other fd =
      if pid = other then table.descriptors.get fd else store.pointer other fd := by
  rw [pointer, setTable, get_assign]
  split <;> rfl

@[simp] theorem get_fst (fd : Fd) : (store.get pid fd).1 = store.pointer pid fd :=
  getProcessTable_descriptors store pid fd

@[simp] theorem get_snd (fd : Fd) : (store.get pid fd).2 = (store.getProcessTable pid).2 := rfl

@[simp] theorem descriptor_getProcessTable :
    (store.getProcessTable pid).2.descriptor = store.descriptor := by
  funext other fd
  simp only [descriptor, pointer_getProcessTable, contents_getProcessTable]

end Table

theorem Valid.getProcessTable {store : FileDescriptors} (h : store.Valid) (pid : Pid) :
    (store.getProcessTable pid).2.Valid where
  live := by simpa using h.live
  apart := by simpa using h.apart
  fresh := by simpa using h.fresh

section Map

variable (store : FileDescriptors) (pid : Pid) (nodeID : Nat) (fd : Fd) (openFlags : Int)

theorem map_fst : (store.map pid nodeID fd openFlags).1 =
    if fd = -1 then store.nextFileDescriptor pid else fd := rfl

theorem nextContent_map :
    (store.map pid nodeID fd openFlags).2.nextContent = store.nextContent + 1 := by
  simp [map, createDescriptor, setTable]

theorem contents_map : (store.map pid nodeID fd openFlags).2.contents =
    update store.contents store.nextContent
      (some ⟨(store.map pid nodeID fd openFlags).1, 0, nodeID, openFlags⟩) := by
  simp [map, createDescriptor, setTable]

theorem pointer_map (other : Pid) (otherFd : Fd) :
    (store.map pid nodeID fd openFlags).2.pointer other otherFd =
      if pid = other ∧ (store.map pid nodeID fd openFlags).1 = otherFd then some store.nextContent
      else store.pointer other otherFd := by
  have hTable := pointer_setTable (store.getProcessTable pid).2 pid
    ⟨if fd = -1 then Int.bmod ((store.getProcessTable pid).1.nextFileDescriptor + 1) wordSize
      else (store.getProcessTable pid).1.nextFileDescriptor,
      (store.getProcessTable pid).1.descriptors.add (store.map pid nodeID fd openFlags).1
        (store.getProcessTable pid).2.nextContent⟩ other otherFd
  refine hTable.trans ?_
  rw [get_add]
  by_cases hPid : pid = other
  · subst hPid
    rw [getProcessTable_descriptors]
    simp
  · simp [hPid]

theorem nextFileDescriptor_map : (store.map pid nodeID (-1) openFlags).2.nextFileDescriptor pid =
    Int.bmod (store.nextFileDescriptor pid + 1) wordSize := by
  have hTable : (store.map pid nodeID (-1) openFlags).2.processDescriptorTableMap.get pid = some
      ⟨Int.bmod (store.nextFileDescriptor pid + 1) wordSize,
        (store.getProcessTable pid).1.descriptors.add (store.nextFileDescriptor pid)
          (store.getProcessTable pid).2.nextContent⟩ := get_assign_self _ _ _
  rw [nextFileDescriptor, getProcessTable, hTable]

end Map

section Valid

variable {store : FileDescriptors} {pid : Pid} {fd : Fd} {address : Nat}

section

variable (h : store.Valid)

include h

theorem Valid.pointer_ne_nextContent (pid : Pid) (fd : Fd) :
    store.pointer pid fd ≠ some store.nextContent := by
  intro hPointer
  obtain ⟨content, hContent, -⟩ := h.live pid fd _ hPointer
  exact absurd (h.fresh _ (by rw [hContent]; exact Option.some_ne_none _)) (Nat.lt_irrefl _)

theorem descriptor_map (pid : Pid) (nodeID : Nat) (fd : Fd) (openFlags : Int)
    (other : Pid) (otherFd : Fd) :
    (store.map pid nodeID fd openFlags).2.descriptor other otherFd =
      if pid = other ∧ (store.map pid nodeID fd openFlags).1 = otherFd then
        some ⟨(store.map pid nodeID fd openFlags).1, 0, nodeID, openFlags⟩
      else store.descriptor other otherFd := by
  rw [descriptor, pointer_map, contents_map]
  split
  · simp
  · rw [descriptor]
    cases hPointer : store.pointer other otherFd with
    | none => rfl
    | some address =>
      have hNe : address ≠ store.nextContent := fun hEq =>
        h.pointer_ne_nextContent other otherFd (hPointer.trans (congrArg some hEq))
      simp [hNe]

theorem Valid.map (pid : Pid) (nodeID : Nat) (fd : Fd) (openFlags : Int) :
    (store.map pid nodeID fd openFlags).2.Valid := by
  constructor
  · intro other otherFd address hPointer
    rw [pointer_map] at hPointer
    rw [contents_map]
    split at hPointer
    · rename_i hEntry
      cases hPointer
      exact ⟨_, update_self _ _ _, hEntry.2⟩
    · obtain ⟨content, hContent, hId⟩ := h.live other otherFd address hPointer
      have hNe : address ≠ store.nextContent := fun hEq =>
        h.pointer_ne_nextContent other otherFd (hPointer.trans (congrArg some hEq))
      exact ⟨content, by rw [update_of_ne hNe]; exact hContent, hId⟩
  · intro pid₁ fd₁ pid₂ fd₂ address h₁ h₂
    rw [pointer_map] at h₁ h₂
    split at h₁ <;> split at h₂
    · rename_i hFirst hSecond
      exact ⟨hFirst.1.symm.trans hSecond.1, hFirst.2.symm.trans hSecond.2⟩
    · cases h₁
      exact absurd h₂ (h.pointer_ne_nextContent _ _)
    · cases h₂
      exact absurd h₁ (h.pointer_ne_nextContent _ _)
    · exact h.apart _ _ _ _ _ h₁ h₂
  · intro address hContent
    rw [nextContent_map]
    rw [contents_map] at hContent
    by_cases hNew : address = store.nextContent
    · omega
    · rw [update_of_ne hNew] at hContent
      have hLt := h.fresh address hContent
      omega

/-- What `unmap` does to valid tables: the entry goes with its content. -/
theorem unmap_spec (pid : Pid) (fd : Fd) :
    ∃ next, store.unmap pid fd = some next ∧ next.Valid ∧ next.nextContent = store.nextContent ∧
      (∀ other otherFd, next.pointer other otherFd =
        if pid = other ∧ fd = otherFd then none else store.pointer other otherFd) ∧
      ∀ address, next.contents address =
        if store.pointer pid fd = some address then none else store.contents address := by
  have hTable := getProcessTable_descriptors store pid fd
  cases hPointer : store.pointer pid fd with
  | none =>
    refine ⟨(store.getProcessTable pid).2, ?_, h.getProcessTable pid, by simp, ?_, by simp⟩
    · simp only [unmap, hTable, hPointer]
    · intro other otherFd
      rw [pointer_getProcessTable]
      split
      · rename_i hEntry
        rw [← hEntry.1, ← hEntry.2, hPointer]
      · rfl
  | some entry =>
    obtain ⟨content, hContent, hId⟩ := h.live pid fd entry hPointer
    have hPointers : ∀ other otherFd,
        ((store.getProcessTable pid).2.setTable pid { (store.getProcessTable pid).1 with
          descriptors := (store.getProcessTable pid).1.descriptors.erase fd }).pointer other
            otherFd = if pid = other ∧ fd = otherFd then none else store.pointer other otherFd := by
      intro other otherFd
      rw [pointer_setTable, get_erase]
      by_cases hPid : pid = other
      · subst hPid
        rw [getProcessTable_descriptors]
        simp
      · simp [hPid]
    refine ⟨{ (store.getProcessTable pid).2.setTable pid { (store.getProcessTable pid).1 with
      descriptors := (store.getProcessTable pid).1.descriptors.erase fd } with
        contents := update store.contents entry none },
      ?_, ?_, by simp [setTable], hPointers, ?_⟩
    · simp only [unmap, hTable, hPointer, contents_getProcessTable, hContent, hId]
    · constructor
      · intro other otherFd address hOther
        replace hOther := (hPointers other otherFd).symm.trans hOther
        split at hOther
        · cases hOther
        · rename_i hEntry
          obtain ⟨kept, hKept, hKeptId⟩ := h.live other otherFd address hOther
          have hNe : address ≠ entry := by
            rintro rfl
            exact hEntry (h.apart _ _ _ _ _ hPointer hOther)
          exact ⟨kept, (update_of_ne hNe _ _).trans hKept, hKeptId⟩
      · intro pid₁ fd₁ pid₂ fd₂ address h₁ h₂
        replace h₁ := (hPointers pid₁ fd₁).symm.trans h₁
        replace h₂ := (hPointers pid₂ fd₂).symm.trans h₂
        split at h₁
        · cases h₁
        · split at h₂
          · cases h₂
          · exact h.apart _ _ _ _ _ h₁ h₂
      · intro address hAddress
        show address < (store.getProcessTable pid).2.nextContent
        rw [nextContent_getProcessTable]
        apply h.fresh
        intro hNone
        apply hAddress
        by_cases hNe : address = entry
        · rw [hNe]
          exact update_self _ _ _
        · exact (update_of_ne hNe _ _).trans hNone
    · intro address
      show update store.contents entry none address = _
      by_cases hEq : address = entry
      · simp [hEq]
      · simp [hEq, Ne.symm hEq]

theorem descriptor_of_unmap {next : FileDescriptors}
    (hUnmap : store.unmap pid fd = some next) (other : Pid) (otherFd : Fd) :
    next.descriptor other otherFd =
      if pid = other ∧ fd = otherFd then none else store.descriptor other otherFd := by
  obtain ⟨next', hNext, -, -, hPointers, hContents⟩ := unmap_spec h pid fd
  obtain rfl : next' = next := Option.some.inj (hNext.symm.trans hUnmap)
  rw [descriptor, descriptor, hPointers]
  split
  · rfl
  · rename_i hEntry
    cases hOther : store.pointer other otherFd with
    | none => rfl
    | some address =>
      rw [Option.bind_some, Option.bind_some, hContents, if_neg]
      intro hPointer
      exact hEntry (h.apart _ _ _ _ _ hPointer hOther)

/-- A write through an address keeps the tables as long as it keeps the
number of the content. -/
theorem modifyContent_spec {content : FileDescriptorContent}
    (hContent : store.contents address = some content)
    (change : FileDescriptorContent → FileDescriptorContent)
    (hId : (change content).id = content.id) :
    ∃ next, store.modifyContent address change = some next ∧ next.Valid ∧
      next.pointer = store.pointer ∧
      next.contents = update store.contents address (some (change content)) := by
  refine ⟨{ store with contents := update store.contents address (some (change content)) },
    by simp only [modifyContent, hContent], ?_, rfl, rfl⟩
  constructor
  · intro pid fd other hPointer
    obtain ⟨old, hOld, hOldId⟩ := h.live pid fd other hPointer
    show ∃ content', update store.contents address (some (change content)) other =
      some content' ∧ content'.id = fd
    by_cases hEq : other = address
    · subst hEq
      obtain rfl : content = old := Option.some.inj (hContent.symm.trans hOld)
      exact ⟨change content, update_self _ _ _, hId.trans hOldId⟩
    · exact ⟨old, (update_of_ne hEq _ _).trans hOld, hOldId⟩
  · exact h.apart
  · intro other hOther
    apply h.fresh
    by_cases hEq : other = address
    · rw [hEq, hContent]
      exact Option.some_ne_none _
    · exact fun hNone => hOther ((update_of_ne hEq _ _).trans hNone)

end

theorem pointer_unmapAll (pid other : Pid) (fd : Fd) : (store.unmapAll pid).pointer other fd =
    if pid = other then none else store.pointer other fd := by
  rw [pointer, FileDescriptors.unmapAll, get_erase]
  split
  · rfl
  · exact congrFun (congrFun (pointer_getProcessTable store pid) other) fd

theorem contents_unmapAll (h : store.Valid) {other : Pid}
    (hPid : pid ≠ other) (hPointer : store.pointer other fd = some address) :
    (store.unmapAll pid).contents address = store.contents address := by
  rw [FileDescriptors.unmapAll]
  dsimp only
  rw [if_neg, contents_getProcessTable]
  rw [mem_values]
  rintro ⟨own, hOwn⟩
  rw [getProcessTable_descriptors] at hOwn
  exact hPid (h.apart _ _ _ _ _ hOwn hPointer).1

theorem descriptor_unmapAll (h : store.Valid) (pid other : Pid) (fd : Fd) :
    (store.unmapAll pid).descriptor other fd =
      if pid = other then none else store.descriptor other fd := by
  rw [descriptor, pointer_unmapAll]
  split
  · rfl
  · rename_i hPid
    rw [descriptor]
    cases hPointer : store.pointer other fd with
    | none => rfl
    | some address => exact contents_unmapAll h hPid hPointer

theorem Valid.descriptor_eq_none_iff (h : store.Valid) :
    store.descriptor pid fd = none ↔ store.pointer pid fd = none := by
  rw [descriptor]
  cases hPointer : store.pointer pid fd with
  | none => simp
  | some address =>
    obtain ⟨content, hContent, -⟩ := h.live pid fd address hPointer
    simp [hContent]

theorem Valid.unmapAll (h : store.Valid) (pid : Pid) : (store.unmapAll pid).Valid := by
  have hContents : ∀ address, (store.unmapAll pid).contents address ≠ none →
      store.contents address ≠ none := by
    intro address hAddress
    rw [FileDescriptors.unmapAll] at hAddress
    dsimp only at hAddress
    split at hAddress
    · exact absurd rfl hAddress
    · rwa [contents_getProcessTable] at hAddress
  constructor
  · intro other fd address hPointer
    rw [pointer_unmapAll] at hPointer
    split at hPointer
    · cases hPointer
    · rename_i hPid
      obtain ⟨content, hContent, hId⟩ := h.live other fd address hPointer
      exact ⟨content, (contents_unmapAll h hPid hPointer).trans hContent, hId⟩
  · intro pid₁ fd₁ pid₂ fd₂ address h₁ h₂
    rw [pointer_unmapAll] at h₁ h₂
    split at h₁
    · cases h₁
    · split at h₂
      · cases h₂
      · exact h.apart _ _ _ _ _ h₁ h₂
  · intro address hAddress
    have hNext : (store.unmapAll pid).nextContent = store.nextContent :=
      nextContent_getProcessTable store pid
    rw [hNext]
    exact h.fresh address (hContents address hAddress)

end Valid

end FileDescriptors

end Kernel
