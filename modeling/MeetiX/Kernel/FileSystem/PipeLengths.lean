import MeetiX.Kernel.FileSystem.PipeHistory

/-! The lengths that processes pass to reads and writes of pipes. No system call rejects a
negative one. It passes the comparisons with the size, and the copying, which counts in 32 bits,
takes it for a large number. -/
namespace Kernel.Pipes

open Base Base.Ring

/-- The fill level and the pointers that are asked of a pipe. -/
structure Pipe.Inside (pipe : Pipe) : Prop where
  size_le : pipe.size ≤ pipe.capacity
  buffer_le_read : pipe.buffer ≤ pipe.read
  read_lt : pipe.read < pipe.buffer + pipe.capacity
  buffer_le_write : pipe.buffer ≤ pipe.write
  write_lt : pipe.write < pipe.buffer + pipe.capacity

theorem Pipe.Valid.inside {pipe : Pipe} (h : pipe.Valid) : pipe.Inside where
  size_le := h.size_le
  buffer_le_read := h.buffer_le_read
  read_lt := h.read_lt
  buffer_le_write := h.buffer_le_write
  write_lt := h.write_lt

/-- What is asked of a read: it comes back, the pipe stays inside its buffer,
and a negative length delivers nothing and leaves the queue. -/
def ReadKeeps (store : Pipes) (id : PipeID) (pipe : Pipe) (isBlocking : Bool) (pid : Pid)
    (length : Int) : Prop :=
  ∃ answer bytes store' pipe', requestRead store id isBlocking pid length =
      some (answer, bytes, store') ∧
    store'.pipes.get id = some pipe' ∧ pipe'.Inside ∧
    (length < 0 → bytes = [] ∧ pipe'.queued = pipe.queued)

def WriteKeeps (store : Pipes) (id : PipeID) (pipe : Pipe) (isBlocking : Bool) (pid : Pid)
    (data : List UInt8) (length : Int) : Prop :=
  ∃ answer store' pipe', requestWrite store id isBlocking pid data length = some (answer, store') ∧
    store'.pipes.get id = some pipe' ∧ pipe'.Inside ∧
    (length < 0 → pipe'.queued = pipe.queued)

/-- A length that is not negative, or of which 32 bits leave nothing. -/
def SafeLength (length : Int) : Prop := 0 ≤ length ∨ toUInt32 length = 0

instance (length : Int) : Decidable (SafeLength length) := inferInstanceAs (Decidable (_ ∨ _))

variable {store : Pipes} {id : PipeID} {pipe : Pipe}

theorem not_safeLength {length : Int} : ¬ SafeLength length ↔ length < 0 ∧ 0 < toUInt32 length := by
  unfold SafeLength
  omega

section Read

variable {length : Int} {bytes : List UInt8} {moved : Pipe}

theorem copyOut_negative (hLength : length < 0) : copyOut pipe length =
      (copyFrom pipe pipe.read (toUInt32 length)).map fun bytes =>
        (bytes, { pipe with
          read :=
            if wrap32 (pipe.read + toUInt32 length) = endOf pipe then pipe.buffer
            else wrap32 (pipe.read + toUInt32 length) }) := by
  unfold copyOut
  dsimp only
  rw [if_neg (by omega)]
  cases copyFrom pipe pipe.read (toUInt32 length) <;> rfl

/-- A read of a negative length delivers what its copy delivers and does not
change the size. -/
theorem requestRead_negative (hPipe : store.pipes.get id = some pipe) {isBlocking : Bool} {pid : Pid}
    (hLength : length < 0)
    (hCopy : copyOut pipe length = some (bytes, moved)) :
    ∃ answer, requestRead store id isBlocking pid length =
      some (answer, bytes, setPipe store id moved) := by
  have hClamp : (if (pipe.size : Int) ≥ length then length else pipe.size) = length :=
    if_pos (by omega)
  simp only [requestRead, hPipe, hClamp, hCopy]
  rw [if_neg (by omega)]
  split
  · split
    · exact ⟨_, rfl⟩
    · exact ⟨_, rfl⟩
  · exact ⟨_, rfl⟩

theorem length_of_copyOut (hLength : length < 0)
    (hCopy : copyOut pipe length = some (bytes, moved)) :
    bytes.length = toUInt32 length := by
  rw [copyOut_negative hLength] at hCopy
  obtain ⟨copied, hCopied, hPair⟩ := Option.map_eq_some_iff.mp hCopy
  cases hPair
  unfold copyFrom at hCopied
  split at hCopied
  · cases hCopied
    exact length_slice ..
  · cases hCopied

/-- A read keeps what is asked of it exactly for the safe lengths. -/
theorem readKeeps_iff (hPipe : store.pipes.get id = some pipe) (h : pipe.Valid) (isBlocking : Bool)
    (pid : Pid) (length : Int) :
    ReadKeeps store id pipe isBlocking pid length ↔ SafeLength length := by
  constructor
  · rintro ⟨answer, bytes, store', pipe', hRead, -, -, hNegative⟩
    by_contra hUnsafe
    obtain ⟨hLength, hSome⟩ := not_safeLength.mp hUnsafe
    cases hCopy : copyOut pipe length with
    | none =>
      have hClamp : (if (pipe.size : Int) ≥ length then length else pipe.size) = length :=
        if_pos (by omega)
      simp only [requestRead, hPipe, hClamp, hCopy] at hRead
      cases hRead
    | some copied =>
      obtain ⟨answer', hAnswer⟩ := requestRead_negative hPipe hLength hCopy
      rw [hAnswer] at hRead
      cases hRead
      have hCount := length_of_copyOut hLength hCopy
      rw [(hNegative hLength).1] at hCount
      exact absurd hCount (Nat.ne_of_lt hSome)
  · intro hSafe
    obtain ⟨answer, bytes, pipe', hSpec, hValid, hQueued, -, hCount⟩ :=
      requestRead_spec hPipe h isBlocking pid hSafe
    refine ⟨answer, bytes, _, pipe', hSpec, get_setPipe_self .., hValid.inside, fun hLength => ?_⟩
    have hNil : bytes = [] := List.eq_nil_of_length_eq_zero (by omega)
    subst hNil
    exact ⟨rfl, hQueued.symm⟩

end Read

section Write

variable {data : List UInt8} {length : Int}

theorem copyIn_negative (hLength : length < 0) : copyIn pipe data length =
      (copyTo pipe pipe.write data (toUInt32 length)).map fun copied =>
        { copied with
          write :=
            if wrap32 (copied.write + toUInt32 length) = endOf copied then copied.buffer
            else wrap32 (copied.write + toUInt32 length) } := by
  unfold copyIn
  dsimp only
  rw [if_neg (by omega)]
  cases copyTo pipe pipe.write data (toUInt32 length) <;> rfl

theorem size_of_copyIn (hLength : length < 0) {moved : Pipe}
    (hCopy : copyIn pipe data length = some moved) : moved.size = pipe.size := by
  rw [copyIn_negative hLength] at hCopy
  obtain ⟨copied, hCopied, rfl⟩ := Option.map_eq_some_iff.mp hCopy
  unfold copyTo at hCopied
  split at hCopied
  · cases hCopied
    rfl
  · cases hCopied

/-- A write keeps what is asked of it exactly for the safe lengths and for full
pipes. -/
theorem writeKeeps_iff (hPipe : store.pipes.get id = some pipe) (h : pipe.Valid) (isBlocking : Bool)
    (pid : Pid) (hData : 0 ≤ length → length ≤ data.length) :
    WriteKeeps store id pipe isBlocking pid data length ↔
      SafeLength length ∨ pipe.size = pipe.capacity := by
  have hSize := h.size_le
  constructor
  · rintro ⟨answer, store', pipe', hWrite, hPipe', -, hNegative⟩
    by_contra hUnsafe
    obtain ⟨hUnsafe, hNotFull⟩ := not_or.mp hUnsafe
    obtain ⟨hLength, hSome⟩ := not_safeLength.mp hUnsafe
    rw [requestWrite_room hPipe h (by omega) (Int.min_eq_left (by omega))] at hWrite
    obtain ⟨moved, hCopy, hPair⟩ := Option.map_eq_some_iff.mp hWrite
    cases hPair
    rw [get_setPipe_self] at hPipe'
    cases hPipe'
    -- The size takes in the number that was copied, so the queue is another one.
    have hQueued := congrArg List.length (hNegative hLength)
    rw [Pipe.queued, Pipe.queued, length_window, length_window, size_of_copyIn hLength hCopy] at hQueued
    dsimp only at hQueued
    unfold toUInt32 wordSize at *
    omega
  · intro hSafe
    obtain ⟨answer, store', pipe', hSpec, -, hPipe', hValid, hQueued, hCount⟩ :=
      requestWrite_spec hPipe h isBlocking pid hData hSafe
    refine ⟨answer, store', pipe', hSpec, hPipe', hValid.inside, fun hLength => ?_⟩
    have hZero : answer.count = 0 := by omega
    rw [hQueued, hZero, List.take_zero, List.append_nil]

end Write

section Runs

/-- A request whose length is safe, or a write to a full pipe. A block of the
heap lies inside the address space and a writer's buffer is as long as it
says. -/
inductive SafeStep : Pipes → Op → Pipes → Prop
  | create {store : Pipes} {buffer : Nat} {bytes : Nat → UInt8}
      (hBlock : buffer + pipeDefaultCapacity < wordSize) :
      SafeStep store (.create buffer bytes) (create store buffer bytes).2
  | addReference {store : Pipes} {id : PipeID} {pid : Pid} :
      SafeStep store (.addReference id pid) (addReference store id pid)
  | removeReference {store : Pipes} {id : PipeID} {pid : Pid} :
      SafeStep store (.removeReference id pid) (removeReference store id pid)
  | read {store store' : Pipes} {id : PipeID} {isBlocking : Bool} {pid : Pid} {length : Int}
      {answer : Answer} {bytes : List UInt8} (hSafe : SafeLength length)
      (hRead : requestRead store id isBlocking pid length = some (answer, bytes, store')) :
      SafeStep store (.read id isBlocking pid length) store'
  | write {store store' : Pipes} {id : PipeID} {isBlocking : Bool} {pid : Pid} {data : List UInt8}
      {length : Int} {answer : Answer}
      (hSafe : SafeLength length ∨
        ∀ pipe, store.pipes.get id = some pipe → pipe.size = pipe.capacity)
      (hData : 0 ≤ length → length ≤ data.length)
      (hWrite : requestWrite store id isBlocking pid data length = some (answer, store')) :
      SafeStep store (.write id isBlocking pid data length) store'

def AllValid : Pipes → Prop := Holds fun _ pipe => pipe.Valid

theorem AllValid.create {store : Pipes} (h : AllValid store) {buffer : Nat} (bytes : Nat → UInt8)
    (hBlock : buffer + pipeDefaultCapacity < wordSize) : AllValid (create store buffer bytes).2 := by
  unfold Pipes.create
  split
  · exact h.changed (fun other hOther => HashMap.get_add_of_ne _ _ hOther.symm)
      (HashMap.get_add_self _ _ _) (fun _ _ _ hOld => hOld) (valid_new bytes hBlock)
  · exact h

theorem AllValid.read {store store' : Pipes} (h : AllValid store) {id : PipeID} {isBlocking : Bool}
    {pid : Pid} {length : Int} {answer : Answer} {bytes : List UInt8} (hSafe : SafeLength length)
    (hRead : requestRead store id isBlocking pid length = some (answer, bytes, store')) :
    AllValid store' := by
  cases hPipe : store.pipes.get id with
  | none =>
    simp only [requestRead, hPipe] at hRead
    obtain ⟨-, -, rfl⟩ := hRead
    exact h
  | some pipe =>
    obtain ⟨answer', bytes', pipe', hSpec, hValid, -⟩ :=
      requestRead_spec hPipe (h id pipe hPipe) isBlocking pid hSafe
    rw [hRead] at hSpec
    cases hSpec
    exact h.changed (fun other => get_setPipe_of_ne _ _) (get_setPipe_self _ _ _)
      (fun _ _ _ hOld => hOld) hValid

theorem AllValid.write {store store' : Pipes} (h : AllValid store) {id : PipeID} {isBlocking : Bool}
    {pid : Pid} {data : List UInt8} {length : Int} {answer : Answer}
    (hSafe : SafeLength length ∨
      ∀ pipe, store.pipes.get id = some pipe → pipe.size = pipe.capacity)
    (hData : 0 ≤ length → length ≤ data.length)
    (hWrite : requestWrite store id isBlocking pid data length = some (answer, store')) :
    AllValid store' := by
  cases hPipe : store.pipes.get id with
  | none =>
    simp only [requestWrite, hPipe] at hWrite
    obtain ⟨-, rfl⟩ := hWrite
    exact h
  | some pipe =>
    obtain ⟨answer', next, pipe', hSpec, hFrame, hSelf, hValid, -⟩ := requestWrite_spec hPipe
      (h id pipe hPipe) isBlocking pid hData (hSafe.imp_right fun hFull => hFull pipe hPipe)
    rw [hWrite] at hSpec
    cases hSpec
    exact h.changed hFrame hSelf (fun _ _ _ hOld => hOld) hValid

theorem AllValid.sameQueues {store' : Pipes} (h : AllValid store) (hSame : SameQueues store store') :
    AllValid store' := by
  intro other found hFound
  obtain ⟨old, hOld, hValid, -⟩ := hSame other found hFound
  exact hValid (h other old hOld)

theorem SafeStep.allValid {store' : Pipes} {op : Op} (hStep : SafeStep store op store')
    (h : AllValid store) : AllValid store' := by
  cases hStep with
  | create hBlock => exact h.create _ hBlock
  | addReference => exact h.sameQueues sameQueues_addReference
  | removeReference => exact h.sameQueues sameQueues_removeReference
  | read hSafe hRead => exact h.read hSafe hRead
  | write hSafe hData hWrite => exact h.write hSafe hData hWrite

/-- After any requests with safe lengths, a read of any length keeps what is
asked of it exactly if the length is safe, and so does a write, unless the pipe
is full. -/
theorem requests_keep_iff_safe {ops : List Op} {store : Pipes}
    (run : Run SafeStep Pipes.initial ops store) {id : PipeID} {pipe : Pipe}
    (hPipe : store.pipes.get id = some pipe) (isBlocking : Bool) (pid : Pid) (length : Int) :
    (ReadKeeps store id pipe isBlocking pid length ↔ SafeLength length) ∧
      ∀ data : List UInt8, (0 ≤ length → length ≤ data.length) →
        (WriteKeeps store id pipe isBlocking pid data length ↔
          SafeLength length ∨ pipe.size = pipe.capacity) := by
  have hStart : AllValid Pipes.initial := by
    intro other found hFound
    simp [Pipes.initial] at hFound
  have hValid : AllValid store := run.invariant hStart fun _ _ _ h hStep => hStep.allValid h
  exact ⟨readKeeps_iff hPipe (hValid id pipe hPipe) isBlocking pid length,
    fun data hData => writeKeeps_iff hPipe (hValid id pipe hPipe) isBlocking pid hData⟩

def threeBytes : List Op := [.create 0x1000 (fun _ => 0), .write 0 true 7 [1, 2, 3] 3]

def threeBytePipes : Pipes :=
  ((requestWrite (create Pipes.initial 0x1000 fun _ => 0).2 0 true 7 [1, 2, 3] 3).map Prod.snd).getD
    Pipes.initial

theorem run_threeBytes : Run SafeStep Pipes.initial threeBytes threeBytePipes := by
  refine Run.snoc (Run.single (SafeStep.create (by decide))) ?_
  exact SafeStep.write (Or.inl (by decide)) (by decide) rfl

/-- A read of two bytes, and one of the length -4294967296, keep what is asked of
them. -/
theorem requests_keep_iff_safe_three : ∃ pipe, threeBytePipes.pipes.get 0 = some pipe ∧
      ReadKeeps threeBytePipes 0 pipe true 9 2 ∧
      ReadKeeps threeBytePipes 0 pipe true 9 (-4294967296) ∧
      WriteKeeps threeBytePipes 0 pipe true 7 [4] 1 :=
  ⟨_, rfl, (requests_keep_iff_safe run_threeBytes rfl true 9 2).1.mpr (by decide),
    (requests_keep_iff_safe run_threeBytes rfl true 9 (-4294967296)).1.mpr (by decide),
    ((requests_keep_iff_safe run_threeBytes rfl true 7 1).2 [4] (by decide)).mpr
      (Or.inl (by decide))⟩

/-- A read of the length -4294967294 delivers two bytes and puts two others in
their place, a write of the length -4294967295 adds a byte, and a read of the
length -1 leaves the buffer. -/
theorem negative_lengths_transfer : Run SafeStep Pipes.initial threeBytes threeBytePipes ∧
      ((requestRead threeBytePipes 0 true 9 (-4294967294)).map fun (_, bytes, store) =>
        (bytes, (store.pipes.get 0).map Pipe.queued)) = some ([1, 2], some [3, 0, 0]) ∧
      ((requestWrite threeBytePipes 0 true 7 [9] (-4294967295)).map fun (_, store) =>
        (store.pipes.get 0).map Pipe.queued) = some (some [1, 2, 3, 9]) ∧
      (requestRead threeBytePipes 0 true 9 (-1)).isNone := by
  refine ⟨run_threeBytes, ?_, ?_, ?_⟩
  · decide +kernel
  · decide +kernel
  · decide +kernel

end Runs

end Kernel.Pipes
