import MeetiX.Base.Run
import MeetiX.Kernel.FileSystem.Pipes

/-! A pipe is a queue of bytes. Between its two pointers are those that were accepted and not yet
read; for every history, reading takes from the front and writing adds at the end. -/
namespace Kernel.Pipes

open Base Base.Ring Function List Option

structure Pipe.Valid (pipe : Pipe) : Prop where
  inMemory : pipe.buffer + pipe.capacity < wordSize
  size_le : pipe.size ≤ pipe.capacity
  buffer_le_read : pipe.buffer ≤ pipe.read
  read_lt : pipe.read < pipe.buffer + pipe.capacity
  write_eq : pipe.write =
    pipe.buffer + place pipe.capacity (pipe.read - pipe.buffer) pipe.size

def Pipe.queued (pipe : Pipe) : List UInt8 :=
  window pipe.bytes pipe.capacity (pipe.read - pipe.buffer) pipe.size

namespace Pipe.Valid

variable {pipe : Pipe}

variable (h : pipe.Valid)

include h

theorem read_offset_lt : pipe.read - pipe.buffer < pipe.capacity := by
  have hRead := h.read_lt
  have hLe := h.buffer_le_read
  omega

theorem write_lt : pipe.write < pipe.buffer + pipe.capacity := by
  have hPlace := place_lt h.read_offset_lt h.size_le
  rw [h.write_eq]
  omega

theorem write_offset :
    pipe.write - pipe.buffer = place pipe.capacity (pipe.read - pipe.buffer) pipe.size := by
  rw [h.write_eq]
  omega

theorem endOf_eq : endOf pipe = pipe.buffer + pipe.capacity :=
  wrap32_of_lt h.inMemory

theorem buffer_le_write : pipe.buffer ≤ pipe.write := by
  rw [h.write_eq]
  exact Nat.le_add_right _ _

end Pipe.Valid

variable {n : Nat} {pipe found : Pipe} {data : List UInt8} {id other : PipeID} {store : Pipes}
variable {length : Int} {pid : Pid}

theorem toUInt32_natCast (h : n < wordSize) : toUInt32 (n : Int) = n := by
  unfold toUInt32
  have hWord : (wordSize : Int) = 4294967296 := by rfl
  rw [hWord]
  omega

/-- A pointer into the buffer moves on, in one step or in two, with the numbers that the copies
compute for it. -/
theorem Pipe.Valid.advance (h : pipe.Valid) {pointer : Nat} (hLow : pipe.buffer ≤ pointer)
    (hHigh : pointer < pipe.buffer + pipe.capacity) (hn : n ≤ pipe.capacity) :
    ∃ space, space = pipe.capacity - (pointer - pipe.buffer) ∧ sub32 (endOf pipe) pointer = space ∧
      (space < n → toUInt32 ((n : Int) - (space : Int)) = n - space ∧
        (if wrap32 (pipe.buffer + (n - space)) = endOf pipe then pipe.buffer
          else wrap32 (pipe.buffer + (n - space))) =
          pipe.buffer + place pipe.capacity (pointer - pipe.buffer) n) ∧
      (¬space < n → (if wrap32 (pointer + n) = endOf pipe then pipe.buffer
          else wrap32 (pointer + n)) =
          pipe.buffer + place pipe.capacity (pointer - pipe.buffer) n) := by
  have hMemory := h.inMemory
  refine ⟨_, rfl, ?_, fun hPass => ⟨?_, ?_⟩, fun hPass => ?_⟩
  · rw [h.endOf_eq, sub32_of_le (by omega) hMemory]
    omega
  · rw [← Int.ofNat_sub (Nat.le_of_lt hPass), toUInt32_natCast (by omega)]
  · rw [wrap32_of_lt (by omega), h.endOf_eq, if_neg (by omega), place, if_neg (by omega)]
    omega
  · rw [wrap32_of_lt (by omega), h.endOf_eq]
    unfold place
    split <;> split <;> omega

/-- Reading copies the front of the window and moves the read pointer behind
it, in one piece or in two. -/
theorem copyOut_eq (h : pipe.Valid) (hn : n ≤ pipe.capacity) :
    copyOut pipe n = some (window pipe.bytes pipe.capacity (pipe.read - pipe.buffer) n,
      { pipe with read := pipe.buffer + place pipe.capacity (pipe.read - pipe.buffer) n }) := by
  have hMemory := h.inMemory
  have hLow := h.buffer_le_read
  have hHigh := h.read_lt
  obtain ⟨space, hSpace, hToEnd, hTwo, hOne⟩ := h.advance hLow hHigh hn
  unfold copyOut
  simp only [hToEnd]
  by_cases hPass : space < n
  · obtain ⟨hRemaining, hPointer⟩ := hTwo hPass
    have hHead : copyFrom pipe pipe.read space =
        some (Ring.slice pipe.bytes (pipe.read - pipe.buffer) space) := by
      rw [copyFrom, if_pos (by omega)]
    have hTail : copyFrom pipe pipe.buffer (n - space) =
        some (Ring.slice pipe.bytes 0 (n - space)) := by
      rw [copyFrom, if_pos (by omega), Nat.sub_self]
    simp only [if_pos (Int.ofNat_lt.mpr hPass), hRemaining, hHead, hTail, map_some]
    rw [hPointer, hSpace, slice_append_slice h.read_offset_lt hn (by omega)]
  · have hHead : copyFrom pipe pipe.read n =
        some (Ring.slice pipe.bytes (pipe.read - pipe.buffer) n) := by
      rw [copyFrom, if_pos (by omega)]
    simp only [if_neg (mt Int.ofNat_lt.mp hPass), toUInt32_natCast (by omega : n < wordSize), hHead,
      map_some]
    rw [hOne hPass, slice_eq_window (show _ + n ≤ pipe.capacity by omega)]

/-- Writing fills the window behind the write pointer and moves the pointer
behind it, in one piece or in two. -/
theorem copyIn_eq (h : pipe.Valid) (hn : n ≤ pipe.capacity) (hData : n ≤ data.length) :
    ∃ bytes, Filled pipe.bytes bytes pipe.capacity (pipe.write - pipe.buffer) (data.take n) ∧
      copyIn pipe data n = some { pipe with
        bytes := bytes
        write := pipe.buffer + place pipe.capacity (pipe.write - pipe.buffer) n } := by
  have hMemory := h.inMemory
  have hLow := h.buffer_le_write
  have hHigh := h.write_lt
  have hTaken : (data.take n).length = n := length_take_of_le hData
  obtain ⟨space, hSpace, hToEnd, hTwo, hOne⟩ := h.advance hLow hHigh hn
  unfold copyIn
  simp only [hToEnd]
  by_cases hPass : space < n
  · obtain ⟨hRemain, hPointer⟩ := hTwo hPass
    refine ⟨_, filled_overwrite_overwrite (by omega) (by omega), ?_⟩
    rw [← hSpace, take_take, Nat.min_eq_left (Nat.le_of_lt hPass), drop_take]
    simp only [if_pos (Int.ofNat_lt.mpr hPass), hRemain]
    rw [copyTo, if_pos (by omega)]
    dsimp only
    rw [copyTo, if_pos (by simp only; omega), Nat.sub_self]
    unfold endOf at hPointer ⊢
    simp only [map_some, hPointer]
  · refine ⟨_, filled_overwrite (by omega), ?_⟩
    simp only [if_neg (mt Int.ofNat_lt.mp hPass), toUInt32_natCast (by omega : n < wordSize)]
    rw [copyTo, if_pos (by omega)]
    have hPointer := hOne hPass
    unfold endOf at hPointer ⊢
    simp only [map_some, hPointer]

/-- How many bytes an answer reports as transferred. -/
def Answer.count : Answer → Nat
  | .finished result _ => result.toNat
  | .again => 0

@[simp] theorem get_setPipe_self (store : Pipes) (id : PipeID) (pipe : Pipe) :
    (setPipe store id pipe).pipes.get id = some pipe := by
  simp [setPipe]

theorem get_setPipe_of_ne (store : Pipes) (pipe : Pipe) (h : other ≠ id) :
    (setPipe store id pipe).pipes.get other = store.pipes.get other := by
  simp [setPipe, HashMap.get_assign_of_ne _ _ (Ne.symm h)]

theorem queued_read (h : pipe.Valid) (hn : n ≤ pipe.size) : ({ pipe with
        read := pipe.buffer + place pipe.capacity (pipe.read - pipe.buffer) n
        size := pipe.size - n } : Pipe).Valid ∧
      pipe.queued = window pipe.bytes pipe.capacity (pipe.read - pipe.buffer) n ++
        ({ pipe with
          read := pipe.buffer + place pipe.capacity (pipe.read - pipe.buffer) n
          size := pipe.size - n } : Pipe).queued := by
  have hSize := h.size_le
  have hOffset := h.read_offset_lt
  have hPlace := place_lt hOffset (show n ≤ pipe.capacity by omega)
  have hBack : pipe.buffer + place pipe.capacity (pipe.read - pipe.buffer) n - pipe.buffer =
      place pipe.capacity (pipe.read - pipe.buffer) n := by omega
  have hTotal : n + (pipe.size - n) = pipe.size := by omega
  refine ⟨⟨h.inMemory, ?_, ?_, ?_, ?_⟩, ?_⟩
  · simp only
    omega
  · simp only
    omega
  · simp only
    omega
  · simp only [hBack]
    rw [place_place hOffset (by omega), hTotal]
    exact h.write_eq
  · have hAppend : window pipe.bytes pipe.capacity (pipe.read - pipe.buffer)
        (n + (pipe.size - n)) = _ := window_append hOffset (by omega)
    rw [hTotal] at hAppend
    simpa [Pipe.queued, hBack] using hAppend

theorem queued_write (h : pipe.Valid) {bytes : Nat → UInt8}
    (hRoom : pipe.size + data.length ≤ pipe.capacity)
    (hFilled : Filled pipe.bytes bytes pipe.capacity (pipe.write - pipe.buffer) data) :
    ({ pipe with
        bytes := bytes
        write := pipe.buffer + place pipe.capacity (pipe.write - pipe.buffer) data.length
        size := pipe.size + data.length } : Pipe).Valid ∧
      ({ pipe with
        bytes := bytes
        write := pipe.buffer + place pipe.capacity (pipe.write - pipe.buffer) data.length
        size := pipe.size + data.length } : Pipe).queued = pipe.queued ++ data := by
  have hOffset := h.read_offset_lt
  refine ⟨⟨h.inMemory, hRoom, h.buffer_le_read, h.read_lt, ?_⟩, ?_⟩
  · simp only [h.write_offset]
    rw [place_place hOffset hRoom]
  · rw [h.write_offset] at hFilled
    simp only [Pipe.queued]
    rw [window_append hOffset hRoom, hFilled.window_old hOffset hRoom,
      hFilled.window_new (by omega)]

/-- A negative length of which 32 bits leave nothing copies as little as 0. -/
theorem copy_toNat (hLength : 0 ≤ length ∨ toUInt32 length = 0) :
    copyOut pipe length = copyOut pipe length.toNat ∧
      copyIn pipe data length = copyIn pipe data length.toNat := by
  by_cases hPositive : 0 ≤ length
  · rw [Int.toNat_of_nonneg hPositive]
    exact ⟨rfl, rfl⟩
  · have hSpace (space : Nat) : ¬length > space ∧ ¬(0 : Int) > space := by omega
    have hNone : toUInt32 length = toUInt32 0 := hLength.resolve_left hPositive
    rw [Int.toNat_of_nonpos (by omega), Int.natCast_zero]
    simp only [copyOut, copyIn, (hSpace _).1, (hSpace _).2, if_false, hNone, and_self]

section

variable (hPipe : store.pipes.get id = some pipe) (h : pipe.Valid)

include hPipe h

/-- A read takes bytes from the front of the pipe. -/
theorem requestRead_spec (isBlocking : Bool) (pid : Pid)
    (hLength : 0 ≤ length ∨ toUInt32 length = 0) :
    ∃ answer bytes pipe', requestRead store id isBlocking pid length =
        some (answer, bytes, setPipe store id pipe') ∧
      pipe'.Valid ∧ pipe.queued = bytes ++ pipe'.queued ∧ answer.count = bytes.length ∧
      bytes.length ≤ length.toNat := by
  have hSize := h.size_le
  have hMemory := h.inMemory
  obtain ⟨taken, hClamp, hTaken, hLe, hSafe⟩ : ∃ taken : Int,
      (if (pipe.size : Int) ≥ length then length else pipe.size) = taken ∧
      taken ≤ pipe.size ∧ taken ≤ length ∧ (0 ≤ taken ∨ toUInt32 taken = 0) := by
    refine ⟨_, rfl, ?_⟩
    split
    · exact ⟨by omega, Int.le_refl _, hLength⟩
    · exact ⟨Int.le_refl _, by omega, .inl (Int.natCast_nonneg _)⟩
  have hn : taken.toNat ≤ pipe.size := by omega
  have hCopy := copyOut_eq h (show taken.toNat ≤ pipe.capacity by omega)
  obtain ⟨hValid, hQueued⟩ := queued_read h hn
  simp only [requestRead, hPipe, hClamp, (@copy_toNat _ [] _ hSafe).1, hCopy]
  by_cases hPositive : taken > 0
  · have hRest : toUInt32 ((pipe.size : Int) - taken) = pipe.size - taken.toNat := by
      rw [← Int.toNat_of_nonneg (Int.le_of_lt hPositive), ← Int.ofNat_sub hn,
        toUInt32_natCast (by omega), Int.toNat_natCast]
    simp only [if_pos hPositive, hRest]
    exact ⟨_, _, _, rfl, hValid, hQueued, by simp [Answer.count], by rw [length_window]; omega⟩
  · have hZero : taken.toNat = 0 := by omega
    rw [hZero] at hValid hQueued ⊢
    simp only [if_neg hPositive]
    split
    · split
      · exact ⟨_, _, _, rfl, hValid, hQueued, rfl, Nat.zero_le _⟩
      · exact ⟨_, _, _, rfl, hValid, hQueued, rfl, Nat.zero_le _⟩
    · exact ⟨_, _, _, rfl, hValid, hQueued, rfl, Nat.zero_le _⟩

/-- A write to a pipe with room copies as many bytes as there is room for. -/
theorem requestWrite_room (hRoom : pipe.size < pipe.capacity) {isBlocking : Bool} {accepted : Int}
    (hAccepted : min length (pipe.capacity - pipe.size : Nat) = accepted) :
    requestWrite store id isBlocking pid data length = (copyIn pipe data accepted).map fun copied =>
      (.finished accepted .successful,
        setPipe store id { copied with size := toUInt32 (copied.size + accepted) }) := by
  have hMemory := h.inMemory
  have hSpace : sub32 pipe.capacity pipe.size = pipe.capacity - pipe.size :=
    sub32_of_le h.size_le (by omega)
  rw [Int.min_def] at hAccepted
  simp only [requestWrite, hPipe, hSpace, if_pos (Nat.sub_pos_of_lt hRoom), ge_iff_le, hAccepted]
  cases copyIn pipe data accepted <;> rfl

theorem requestWrite_full
    (hFull : pipe.size = pipe.capacity) (isBlocking : Bool) (pid : Pid) (data : List UInt8)
    (length : Int) : ∃ answer, requestWrite store id isBlocking pid data length =
      some (answer, store) ∧ answer.count = 0 := by
  have hMemory := h.inMemory
  have hSpace : sub32 pipe.capacity pipe.size = 0 := by
    rw [sub32_of_le h.size_le (by omega), hFull, Nat.sub_self]
  simp only [requestWrite, hPipe, hSpace, Nat.lt_irrefl, if_false]
  split
  · split
    · exact ⟨_, rfl, rfl⟩
    · exact ⟨_, rfl, rfl⟩
  · exact ⟨_, rfl, rfl⟩

/-- A write adds the reported number of bytes at the end of the pipe. -/
theorem requestWrite_spec (isBlocking : Bool) (pid : Pid)
    (hData : 0 ≤ length → length ≤ data.length)
    (hLength : (0 ≤ length ∨ toUInt32 length = 0) ∨ pipe.size = pipe.capacity) :
    ∃ answer store' pipe', requestWrite store id isBlocking pid data length =
        some (answer, store') ∧
      (∀ other, other ≠ id → store'.pipes.get other = store.pipes.get other) ∧
      store'.pipes.get id = some pipe' ∧ pipe'.Valid ∧
      pipe'.queued = pipe.queued ++ data.take answer.count ∧ answer.count ≤ length.toNat := by
  have hSize := h.size_le
  have hMemory := h.inMemory
  by_cases hFull : pipe.size = pipe.capacity
  · obtain ⟨answer, hAnswer, hNone⟩ := requestWrite_full hPipe h hFull isBlocking pid data length
    exact ⟨answer, store, pipe, hAnswer, fun _ _ => rfl, hPipe, h, by simp [hNone], by omega⟩
  · obtain ⟨accepted, hAccepted⟩ : ∃ accepted,
        min length (pipe.capacity - pipe.size : Nat) = accepted := ⟨_, rfl⟩
    have hSafe : 0 ≤ accepted ∨ toUInt32 accepted = 0 := by
      rcases hLength.resolve_right hFull with hPositive | hNone
      · exact .inl (by omega)
      · rcases Int.le_total length (pipe.capacity - pipe.size : Nat) with hLe | hGe
        · exact .inr (by rwa [← hAccepted, Int.min_eq_left hLe])
        · exact .inl (by omega)
    have hTaken : (data.take accepted.toNat).length = accepted.toNat :=
      length_take_of_le (by omega)
    obtain ⟨bytes, hFilled, hCopy⟩ := copyIn_eq h (show accepted.toNat ≤ pipe.capacity by omega)
      (show accepted.toNat ≤ data.length by omega)
    obtain ⟨hValid, hQueued⟩ := queued_write h (by omega) hFilled
    have hSum : toUInt32 ((pipe.size : Int) + accepted) = pipe.size + accepted.toNat := by
      unfold toUInt32 wordSize at *
      omega
    rw [hTaken] at hValid hQueued
    rw [requestWrite_room hPipe h (by omega) hAccepted, (copy_toNat hSafe).2, hCopy, map_some,
      hSum]
    exact ⟨_, _, _, rfl, fun other hOther => get_setPipe_of_ne _ _ hOther, get_setPipe_self _ _ _,
      hValid, hQueued, by simp only [Answer.count]; omega⟩

end

def Holds (P : PipeID → Pipe → Prop) (store : Pipes) : Prop :=
  ∀ id pipe, store.pipes.get id = some pipe → P id pipe

theorem Holds.changed {P Q : PipeID → Pipe → Prop} {next : Pipes} (h : Holds P store)
    (hOther : ∀ other, other ≠ id → next.pipes.get other = store.pipes.get other)
    (hPipe : next.pipes.get id = some pipe)
    (hKeep : ∀ other found, other ≠ id → P other found → Q other found) (hSelf : Q id pipe) :
    Holds Q next := by
  intro other found hFound
  by_cases hId : other = id
  · subst hId
    rw [hPipe] at hFound
    cases hFound
    exact hSelf
  · rw [hOther other hId] at hFound
    exact hKeep other found hId (h other found hFound)

theorem valid_new {buffer : Nat} (bytes : Nat → UInt8)
    (hBlock : buffer + pipeDefaultCapacity < wordSize) :
    ({ buffer := buffer, write := buffer, read := buffer, size := 0,
       capacity := pipeDefaultCapacity, references := [], bytes := bytes } : Pipe).Valid := by
  refine ⟨hBlock, Nat.zero_le _, Nat.le_refl _, ?_, ?_⟩
  · simp [pipeDefaultCapacity]
  · simp [place, pipeDefaultCapacity]

/-- The requests that reach the pipes. Where the heap is asked for a block the
operation names the block it answers with. -/
inductive Op
  | create (buffer : Nat) (bytes : Nat → UInt8)
  | addReference (id : PipeID) (pid : Pid)
  | removeReference (id : PipeID) (pid : Pid)
  | read (id : PipeID) (isBlocking : Bool) (pid : Pid) (length : Int)
  | write (id : PipeID) (isBlocking : Bool) (pid : Pid) (data : List UInt8) (length : Int)

/-- The pipes together with the bytes that were accepted by writes to, and
returned by reads from, each pipe since it was created. -/
structure Ledger where
  store : Pipes
  accepted : PipeID → List UInt8
  returned : PipeID → List UInt8

def Ledger.initial : Ledger := ⟨Pipes.initial, fun _ => [], fun _ => []⟩

variable {l : Ledger}

/-- One request. A block of the heap lies inside the address space, lengths
are not negative and a writer's buffer is as long as it says. -/
inductive Step : Ledger → Op → Ledger → Prop
  | create {l : Ledger} {buffer : Nat} {bytes : Nat → UInt8} (hBuffer : buffer ≠ 0)
      (hBlock : buffer + pipeDefaultCapacity < wordSize) :
      Step l (.create buffer bytes)
        { store := (create l.store buffer bytes).2
          accepted := update l.accepted (create l.store buffer bytes).1 []
          returned := update l.returned (create l.store buffer bytes).1 [] }
  | createFailed {l : Ledger} {bytes : Nat → UInt8} :
      Step l (.create 0 bytes) { l with store := (create l.store 0 bytes).2 }
  | addReference {l : Ledger} {id : PipeID} {pid : Pid} :
      Step l (.addReference id pid) { l with store := addReference l.store id pid }
  | removeReference {l : Ledger} {id : PipeID} {pid : Pid} :
      Step l (.removeReference id pid) { l with store := removeReference l.store id pid }
  | read {l : Ledger} {id : PipeID} {isBlocking : Bool} {pid : Pid} {length : Int}
      {answer : Answer} {bytes : List UInt8} {store : Pipes} (hLength : 0 ≤ length)
      (hRead : requestRead l.store id isBlocking pid length = some (answer, bytes, store)) :
      Step l (.read id isBlocking pid length)
        { l with
          store := store
          returned := update l.returned id
            (l.returned id ++ bytes.take answer.count) }
  | write {l : Ledger} {id : PipeID} {isBlocking : Bool} {pid : Pid} {data : List UInt8}
      {length : Int} {answer : Answer} {store : Pipes} (hLength : 0 ≤ length)
      (hData : length ≤ data.length)
      (hWrite : requestWrite l.store id isBlocking pid data length = some (answer, store)) :
      Step l (.write id isBlocking pid data length)
        { l with
          store := store
          accepted := update l.accepted id (l.accepted id ++ data.take answer.count) }

/-- What was accepted is what was returned followed by what is still queued. -/
structure Invariant (l : Ledger) : Prop where
  prefix_accepted : ∀ id, l.returned id <+: l.accepted id
  pipes : Holds (fun id pipe => pipe.Valid ∧ l.accepted id = l.returned id ++ pipe.queued) l.store

theorem invariant_initial : Invariant Ledger.initial :=
  ⟨fun _ => prefix_refl _, by simp [Holds, Ledger.initial, Pipes.initial]⟩

/-- A pipe has been exchanged for one with the same queue, or dropped. -/
def SameQueues (store next : Pipes) : Prop :=
  ∀ id pipe, next.pipes.get id = some pipe → ∃ old, store.pipes.get id = some old ∧
    (old.Valid → pipe.Valid) ∧ pipe.queued = old.queued

theorem SameQueues.refl (store : Pipes) : SameQueues store store :=
  fun _ pipe hPipe => ⟨pipe, hPipe, fun h => h, rfl⟩

theorem Invariant.withStore (h : Invariant l) (hStore : SameQueues l.store store) :
    Invariant { l with store := store } := by
  refine ⟨h.prefix_accepted, fun id pipe hPipe => ?_⟩
  obtain ⟨old, hOld, hValid, hQueued⟩ := hStore id pipe hPipe
  obtain ⟨hOldValid, hAccepted⟩ := h.pipes id old hOld
  exact ⟨hValid hOldValid, hQueued ▸ hAccepted⟩

theorem sameQueues_setReferences (hPipe : store.pipes.get id = some pipe) (references : List Pid) :
    SameQueues store (setPipe store id { pipe with references := references }) := by
  intro other found hFound
  by_cases hOther : other = id
  · subst hOther
    rw [get_setPipe_self] at hFound
    cases hFound
    exact ⟨pipe, hPipe, fun h => ⟨h.inMemory, h.size_le, h.buffer_le_read, h.read_lt, h.write_eq⟩,
      rfl⟩
  · rw [get_setPipe_of_ne _ _ hOther] at hFound
    exact SameQueues.refl store other found hFound

theorem sameQueues_addReference : SameQueues store (addReference store id pid) := by
  rw [addReference]
  split
  · exact .refl store
  · rename_i pipe hPipe
    exact sameQueues_setReferences hPipe _

theorem sameQueues_removeReference : SameQueues store (removeReference store id pid) := by
  rw [removeReference]
  split
  · exact .refl store
  · rename_i pipe hPipe
    dsimp only
    split
    · intro other found hFound
      rw [HashMap.get_erase] at hFound
      split at hFound
      · cases hFound
      · exact SameQueues.refl store other found hFound
    · exact sameQueues_setReferences hPipe _

theorem Invariant.create {l : Ledger} (h : Invariant l) {buffer : Nat} {bytes : Nat → UInt8}
    (hBuffer : buffer ≠ 0) (hBlock : buffer + pipeDefaultCapacity < wordSize) :
    Invariant
      { store := (create l.store buffer bytes).2
        accepted := update l.accepted (create l.store buffer bytes).1 []
        returned := update l.returned (create l.store buffer bytes).1 [] } := by
  have hCreate : l.store.create buffer bytes = (l.store.pipeNextID,
      { pipeNextID := Int.bmod (l.store.pipeNextID + 1) wordSize
        pipes := l.store.pipes.add l.store.pipeNextID
          { buffer := buffer, write := buffer, read := buffer, size := 0,
            capacity := pipeDefaultCapacity, references := [], bytes := bytes } }) := by
    rw [Pipes.create, if_pos hBuffer]
  rw [hCreate]
  refine ⟨fun id => ?_, h.pipes.changed (fun other hOther => HashMap.get_add_of_ne _ _ hOther.symm)
    (HashMap.get_add_self _ _ _) (fun other found hOther hOld => ?_) ?_⟩
  · by_cases hId : id = l.store.pipeNextID
    · simp [hId]
    · simpa [hId] using h.prefix_accepted id
  · simpa [hOther] using hOld
  · exact ⟨valid_new bytes hBlock, by simp [Pipe.queued, window]⟩

/-- What is read has been written before and is gone afterwards. -/
theorem Invariant.read {l : Ledger} (h : Invariant l) {id : PipeID} {isBlocking : Bool} {pid : Pid}
    {length : Int} {answer : Answer} {bytes : List UInt8} {store : Pipes} (hLength : 0 ≤ length)
    (hRead : requestRead l.store id isBlocking pid length = some (answer, bytes, store)) :
    Invariant
      { l with
        store := store
        returned := update l.returned id (l.returned id ++ bytes.take answer.count) } := by
  cases hPipe : l.store.pipes.get id with
  | none =>
    simp only [requestRead, hPipe, some.injEq, Prod.mk.injEq] at hRead
    obtain ⟨-, rfl, rfl⟩ := hRead
    simpa using h
  | some pipe =>
    obtain ⟨hValid, hAccepted⟩ := h.pipes id pipe hPipe
    obtain ⟨answer', bytes', pipe', hSpec, hValid', hQueued, hCount, -⟩ :=
      requestRead_spec hPipe hValid isBlocking pid (.inl hLength)
    rw [hRead, some.injEq, Prod.mk.injEq, Prod.mk.injEq] at hSpec
    obtain ⟨rfl, rfl, rfl⟩ := hSpec
    rw [hCount, take_length]
    have hBalance : l.accepted id = l.returned id ++ bytes ++ pipe'.queued := by
      rw [hAccepted, hQueued, append_assoc]
    refine ⟨fun other => ?_, h.pipes.changed (fun other => get_setPipe_of_ne _ _)
      (get_setPipe_self _ _ _) (fun other found hOther hOld => ?_) ⟨hValid', by simpa using hBalance⟩⟩
    · by_cases hOther : other = id
      · subst hOther
        simp only [update_self]
        exact ⟨pipe'.queued, hBalance.symm⟩
      · simpa [hOther] using h.prefix_accepted other
    · simpa [hOther] using hOld

theorem Invariant.write {l : Ledger} (h : Invariant l) {id : PipeID} {isBlocking : Bool} {pid : Pid}
    {data : List UInt8} {length : Int} {answer : Answer} {store : Pipes} (hLength : 0 ≤ length)
    (hData : length ≤ data.length)
    (hWrite : requestWrite l.store id isBlocking pid data length = some (answer, store)) :
    Invariant
      { l with
        store := store
        accepted := update l.accepted id (l.accepted id ++ data.take answer.count) } := by
  cases hPipe : l.store.pipes.get id with
  | none =>
    simp only [requestWrite, hPipe, some.injEq, Prod.mk.injEq] at hWrite
    obtain ⟨rfl, rfl⟩ := hWrite
    simpa [Answer.count] using h
  | some pipe =>
    obtain ⟨hValid, hAccepted⟩ := h.pipes id pipe hPipe
    obtain ⟨answer', store', pipe', hSpec, hFrame, hSelf, hValid', hQueued, -⟩ :=
      requestWrite_spec hPipe hValid isBlocking pid (fun _ => hData) (.inl (.inl hLength))
    rw [hWrite, some.injEq, Prod.mk.injEq] at hSpec
    obtain ⟨rfl, rfl⟩ := hSpec
    refine ⟨fun other => ?_, h.pipes.changed hFrame hSelf (fun other found hOther hOld => ?_) ⟨hValid', ?_⟩⟩
    · by_cases hOther : other = id
      · subst hOther
        simp only [update_self]
        exact (h.prefix_accepted other).trans (prefix_append _ _)
      · simpa [hOther] using h.prefix_accepted other
    · simpa [hOther] using hOld
    · simp only [update_self]
      rw [hAccepted, hQueued, append_assoc]

theorem Step.invariant {l' : Ledger} {op : Op} (h : Invariant l) (hStep : Step l op l') :
    Invariant l' := by
  cases hStep with
  | create hBuffer hBlock => exact h.create hBuffer hBlock
  | createFailed => exact h
  | addReference => exact h.withStore sameQueues_addReference
  | removeReference => exact h.withStore sameQueues_removeReference
  | read hLength hRead => exact h.read hLength hRead
  | write hLength hData hWrite => exact h.write hLength hData hWrite

theorem run_invariant {ops : List Op} (run : Run Step Ledger.initial ops l) : Invariant l :=
  run.invariant invariant_initial fun _ _ _ h hStep => Step.invariant h hStep

/-- In every history the bytes returned by reads are a prefix of those accepted by writes, the
size of a pipe is the number of bytes in between, and its pointers stay inside the buffer, `size`
apart. Every request whose length is not negative comes back. -/
theorem pipe_is_byte_queue {ops : List Op} {l : Ledger} (run : Run Step Ledger.initial ops l) :
    (∀ id, l.returned id <+: l.accepted id) ∧
    (∀ id pipe, l.store.pipes.get id = some pipe →
      (l.accepted id).length = (l.returned id).length + pipe.size ∧ pipe.size ≤ pipe.capacity ∧
      (pipe.buffer ≤ pipe.read ∧ pipe.read < pipe.buffer + pipe.capacity) ∧
      (pipe.buffer ≤ pipe.write ∧ pipe.write < pipe.buffer + pipe.capacity) ∧
      pipe.write - pipe.buffer = (pipe.read - pipe.buffer + pipe.size) % pipe.capacity) ∧
    (∀ id isBlocking pid (length : Int), 0 ≤ length →
      (requestRead l.store id isBlocking pid length).isSome) ∧
    (∀ id isBlocking pid (data : List UInt8) (length : Int), 0 ≤ length → length ≤ data.length →
      (requestWrite l.store id isBlocking pid data length).isSome) := by
  have h := run_invariant run
  refine ⟨h.prefix_accepted, fun id pipe hPipe => ?_, fun id isBlocking pid length hLength => ?_,
    fun id isBlocking pid data length hLength hData => ?_⟩
  · obtain ⟨hValid, hAccepted⟩ := h.pipes id pipe hPipe
    have hLengths : (l.accepted id).length = (l.returned id).length + pipe.size := by
      rw [hAccepted, length_append, Pipe.queued, length_window]
    refine ⟨hLengths, hValid.size_le, ⟨hValid.buffer_le_read, hValid.read_lt⟩,
      ⟨hValid.buffer_le_write, hValid.write_lt⟩, ?_⟩
    rw [hValid.write_offset, place_eq_mod hValid.read_offset_lt hValid.size_le]
  · cases hPipe : l.store.pipes.get id with
    | none => simp [requestRead, hPipe]
    | some pipe =>
      obtain ⟨_, _, _, hSpec, -⟩ :=
        requestRead_spec hPipe (h.pipes id pipe hPipe).1 isBlocking pid (.inl hLength)
      simp [hSpec]
  · cases hPipe : l.store.pipes.get id with
    | none => simp [requestWrite, hPipe]
    | some pipe =>
      obtain ⟨_, _, _, hSpec, -⟩ :=
        requestWrite_spec hPipe (h.pipes id pipe hPipe).1 isBlocking pid (fun _ => hData)
          (.inl (.inl hLength))
      simp [hSpec]

/-- Process 7 writes three bytes to a new pipe and process 9 reads two. -/
theorem pipe_is_byte_queue_two_of_three : ∃ l, Run Step Ledger.initial
        [.create 0x1000 (fun _ => 0), .write 0 true 7 [1, 2, 3] 3, .read 0 true 9 2] l ∧
      l.accepted 0 = [1, 2, 3] ∧ l.returned 0 = [1, 2] ∧ l.returned 0 <+: l.accepted 0 := by
  have hCreated := Run.single (@Step.create Ledger.initial 0x1000 (fun _ => 0) (by decide) (by decide))
  have hWritten := Run.snoc hCreated (@Step.write _ 0 true 7 [1, 2, 3] 3 (.finished 3 .successful) _
    (by decide) (by decide) rfl)
  have run := Run.snoc hWritten (@Step.read _ 0 true 9 2 (.finished 2 .successful) [1, 2] _
    (by decide) rfl)
  exact ⟨_, run, rfl, rfl, (pipe_is_byte_queue run).1 0⟩

end Kernel.Pipes
