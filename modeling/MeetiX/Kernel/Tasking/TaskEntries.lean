import Mathlib.Data.List.Count
import Mathlib.Data.List.Induction
import MeetiX.Base.Linked
import MeetiX.Base.Run
import MeetiX.Kernel.Tasking.Scheduler

/-! The queues of the scheduler in memory: entries that point to a thread and to the next entry,
and operations that relink them. They are shown to do what the operations of the scheduler do to
lists of threads. -/
namespace Kernel.TaskEntries

open Base Base.Linked Function List Prod

/-- `TaskEntry`; the thread stands for the pointer to it. -/
structure TaskEntry where
  value : Tid
  next : Nat
  deriving DecidableEq, Repr

abbrev Entries := Nat → Option TaskEntry

/-- The pointers of a scheduler and the entries in memory. A pointer that leads to no entry
cannot be followed. -/
structure EntryMemory where
  entries : Entries
  /-- How many entries there are, so that no queue is longer. -/
  size : Nat
  waitQueue : Nat
  runQueue : Nat
  idleEntry : Nat
  currentEntry : Nat

def EntryMemory.new : EntryMemory := ⟨fun _ => none, 0, 0, 0, 0, 0⟩

/-- What `_removeFromQueue` leaves behind: the entry it returns, the head of the queue and the
entries in memory. -/
structure Removal where
  removedEntry : Nat
  queueHead : Nat
  entries : Entries

/-- The loop of `_removeFromQueue`. -/
def removeBehind (thread : Tid) (entries : Entries) :
    (fuel previous entry : Nat) → Option (Nat × Entries)
  | 0, _, entry => if entry = 0 then some (0, entries) else none
  | fuel + 1, previous, entry =>
    if entry = 0 then some (0, entries)
    else
      match entries entry with
      | none => none
      | some found =>
        if found.value = thread then
          (entries previous).map fun before =>
            (entry, update entries previous (some { before with next := found.next }))
        else removeBehind thread entries fuel entry found.next

def removeFromQueue (fuel : Nat) (entries : Entries) (queueHead : Nat) (thread : Tid) :
    Option Removal :=
  if queueHead = 0 then some ⟨0, queueHead, entries⟩
  else
    match entries queueHead with
    | none => none
    | some first =>
      if first.value = thread then some ⟨queueHead, first.next, entries⟩
      else (removeBehind thread entries fuel 0 queueHead).map fun result =>
        ⟨result.1, queueHead, result.2⟩

def setNext (entries : Entries) (address next : Nat) : Entries :=
  update entries address ((entries address).map fun entry => { entry with next := next })

namespace EntryMemory

variable (m : EntryMemory)

variable (thread : Tid)

def add (priority : ThreadPriority) (address : Nat) : EntryMemory :=
  match priority with
  | .idle =>
    { m with
      entries := update m.entries address (some ⟨thread, 0⟩)
      size := m.size + 1
      idleEntry := address }
  | .normal =>
    { m with
      entries := update m.entries address (some ⟨thread, m.runQueue⟩)
      size := m.size + 1
      runQueue := address }

def moveToRunQueue : Option EntryMemory :=
  (TaskEntries.removeFromQueue m.size m.entries m.waitQueue thread).map fun removal =>
    if removal.removedEntry = 0 then
      { m with entries := removal.entries, waitQueue := removal.queueHead }
    else
      { m with
        entries := setNext removal.entries removal.removedEntry m.runQueue
        waitQueue := removal.queueHead
        runQueue := removal.removedEntry }

def moveToWaitQueue : Option EntryMemory :=
  (TaskEntries.removeFromQueue m.size m.entries m.runQueue thread).map fun removal =>
    if removal.removedEntry = 0 then
      { m with entries := removal.entries, runQueue := removal.queueHead }
    else
      { m with
        entries := setNext removal.entries removal.removedEntry m.waitQueue
        runQueue := removal.queueHead
        waitQueue := removal.removedEntry
        currentEntry := if removal.removedEntry = m.currentEntry then 0 else m.currentEntry }

def increaseWaitPriority : Option EntryMemory :=
  (TaskEntries.removeFromQueue m.size m.entries m.waitQueue thread).map fun removal =>
    if removal.removedEntry = 0 then
      { m with entries := removal.entries, waitQueue := removal.queueHead }
    else
      { m with
        entries := setNext removal.entries removal.removedEntry removal.queueHead
        waitQueue := removal.removedEntry }

def delete (address : Nat) : EntryMemory :=
  { m with entries := update m.entries address none, size := m.size - 1 }

/-- `_remove`, as far as the queues are concerned. -/
def remove : Option EntryMemory :=
  match TaskEntries.removeFromQueue m.size m.entries m.runQueue thread with
  | none => none
  | some removal =>
    let m := { m with entries := removal.entries, runQueue := removal.queueHead }
    if removal.removedEntry ≠ 0 then some (m.delete removal.removedEntry)
    else
      match TaskEntries.removeFromQueue m.size m.entries m.waitQueue thread with
      | none => none
      | some removal =>
        let m := { m with entries := removal.entries, waitQueue := removal.queueHead }
        if removal.removedEntry = 0 then some m else some (m.delete removal.removedEntry)

end EntryMemory

inductive Op
  /-- The memory allocator gives the address for the new entry. -/
  | add (thread : Tid) (priority : ThreadPriority) (address : Nat)
  | moveToRunQueue (thread : Tid)
  | moveToWaitQueue (thread : Tid)
  | increaseWaitPriority (thread : Tid)
  | remove (thread : Tid)
  deriving DecidableEq

/-- A new entry is not null and lies where no entry is. -/
def execute (m : EntryMemory) : Op → Option EntryMemory
  | .add thread priority address =>
    if address ≠ 0 ∧ m.entries address = none then some (m.add thread priority address) else none
  | .moveToRunQueue thread => m.moveToRunQueue thread
  | .moveToWaitQueue thread => m.moveToWaitQueue thread
  | .increaseWaitPriority thread => m.increaseWaitPriority thread
  | .remove thread => m.remove thread

def Step (s : EntryMemory) (op : Op) (t : EntryMemory) : Prop :=
  execute s op = some t

section Queued

variable {entries : Entries} {head fuel : Nat} {queue rest : List (Nat × Tid)} {thread : Tid}

def link (entries : Entries) (address : Nat) : Nat := (entries address).elim 0 TaskEntry.next

def valueAt (entries : Entries) (address : Nat) : Option Tid :=
  (entries address).map TaskEntry.value

structure Chain (entries : Entries) (head : Nat) (nodes : List Nat) : Prop where
  segment : Segment (link entries) head nodes 0
  live : ∀ a ∈ nodes, (entries a).isSome = true

/-- A null-terminated list of entries with their threads. -/
def Queued (entries : Entries) : Nat → List (Nat × Tid) → Prop
  | head, [] => head = 0
  | head, first :: queue => head = first.1 ∧ first.1 ≠ 0 ∧
      ∃ next, entries first.1 = some ⟨first.2, next⟩ ∧ Queued entries next queue

section

variable (h : Queued entries head queue)

include h

theorem Queued.congr {entries' : Entries}
    (hSame : ∀ a ∈ queue.map fst, entries' a = entries a) : Queued entries' head queue := by
  induction queue generalizing head with
  | nil => exact h
  | cons first queue ih =>
    obtain ⟨hHead, hNe, next, hEntry, hQueue⟩ := h
    exact ⟨hHead, hNe, next, (hSame _ (mem_cons_self ..)).trans hEntry,
      ih hQueue fun a ha => hSame a (mem_cons_of_mem _ ha)⟩

theorem Queued.update {address : Nat} {e : Option TaskEntry}
    (hNotIn : address ∉ queue.map fst) : Queued (update entries address e) head queue :=
  h.congr fun _ ha => update_of_ne (ne_of_mem_of_not_mem ha hNotIn) _ _

theorem Queued.chain : Chain entries head (queue.map fst) := by
  induction queue generalizing head with
  | nil => exact ⟨h, nofun⟩
  | cons first queue ih =>
    obtain ⟨hHead, hNe, next, hEntry, hQueue⟩ := h
    obtain ⟨hSegment, hLive⟩ := ih hQueue
    refine ⟨⟨hHead, hNe, ?_⟩, forall_mem_cons.mpr ⟨by rw [hEntry]; rfl, hLive⟩⟩
    rw [link, hEntry]
    exact hSegment

theorem Queued.valueAt : (queue.map fst).map (valueAt entries) = (queue.map snd).map some := by
  induction queue generalizing head with
  | nil => rfl
  | cons first queue ih =>
    obtain ⟨-, -, next, hEntry, hQueue⟩ := h
    rw [map_cons, map_cons, ih hQueue, TaskEntries.valueAt, hEntry]
    rfl

end

theorem valueAt_relink {address old : Nat} (h : entries address = some ⟨thread, old⟩) (next a : Nat) :
    valueAt (update entries address (some ⟨thread, next⟩)) a = valueAt entries a := by
  by_cases ha : a = address
  · rw [ha, valueAt, update_self, valueAt, h]
    rfl
  · rw [valueAt, update_of_ne ha, valueAt]

/-- The first entry of the thread has been taken out of a queue. It is still in memory, where
only links have changed. -/
structure Taken (entries : Entries) (queue : List (Nat × Tid)) (thread : Tid) (removal : Removal)
    (rest : List (Nat × Tid)) : Prop where
  perm : queue.Perm ((removal.removedEntry, thread) :: rest)
  threads : rest.map snd = (queue.map snd).erase thread
  queued : Queued removal.entries removal.queueHead rest
  ne_zero : removal.removedEntry ≠ 0
  entry : ∃ next, removal.entries removal.removedEntry = some ⟨thread, next⟩
  value : ∀ a, valueAt removal.entries a = valueAt entries a
  others : ∀ a ∉ rest.map fst, removal.entries a = entries a

/-- The loop stops at the first entry of the thread and lets the entry before it point to the
one behind it. -/
theorem removeBehind_taken {previous : Nat} {value : Tid} (hPrevious : previous ≠ 0)
    (hBefore : entries previous = some ⟨value, head⟩) (hQueue : Queued entries head queue)
    (hNodup : (previous :: queue.map fst).Nodup) (hFuel : queue.length ≤ fuel)
    (hNot : value ≠ thread) :
    thread ∉ queue.map snd ∧
        removeBehind thread entries fuel previous head = some (0, entries) ∨
      ∃ found entries' rest, thread ∈ queue.map snd ∧
        removeBehind thread entries fuel previous head = some (found, entries') ∧
        Taken entries ((previous, value) :: queue) thread ⟨found, previous, entries'⟩ rest := by
  induction queue generalizing head fuel previous value with
  | nil =>
    obtain rfl : head = 0 := hQueue
    cases fuel <;> exact .inl ⟨not_mem_nil, rfl⟩
  | cons first queue ih =>
    obtain ⟨_, other⟩ := first
    obtain ⟨rfl, hNe, next, hEntry, hRest⟩ := hQueue
    dsimp only at hPrevious hBefore hNe hEntry
    obtain ⟨fuel, rfl⟩ : ∃ k, fuel = k + 1 := ⟨fuel - 1, by simp at hFuel; omega⟩
    obtain ⟨hFresh, hNodup⟩ := nodup_cons.mp hNodup
    have hErase : ∀ queue : List Tid, (value :: queue).erase thread = value :: queue.erase thread :=
      fun queue => erase_cons_tail (by simpa using hNot)
    rw [removeBehind, if_neg hNe, hEntry]
    by_cases hThread : other = thread
    · subst hThread
      refine .inr ⟨head, update entries previous (some ⟨value, next⟩), (previous, value) :: queue,
        mem_cons_self .., by simp [hBefore], .swap .., ?_, ⟨rfl, hPrevious, next, update_self .., ?_⟩,
        hNe, ⟨next, ?_⟩, valueAt_relink hBefore next, fun a ha => update_of_ne ?_ _ _⟩
      · simp [hErase]
      · exact hRest.update fun hMem => hFresh (mem_cons_of_mem _ hMem)
      · exact (update_of_ne (ne_of_not_mem_cons hFresh).symm ..).trans hEntry
      · exact ne_of_not_mem_cons ha
    · simp only [if_neg hThread, map_cons, mem_cons, Ne.symm hThread, false_or]
      rcases ih hNe hEntry hRest hNodup (by simpa using hFuel) hThread with
        hAbsent | ⟨found, entries', rest, hMem, hLoop, hTaken⟩
      · exact .inl hAbsent
      · have hApart : previous ∉ rest.map fst := fun hMem => hFresh
          ((hTaken.perm.map fst).mem_iff.mpr (mem_cons_of_mem _ hMem))
        refine .inr ⟨found, entries', (previous, value) :: rest, hMem, hLoop,
          (hTaken.perm.cons _).trans (.swap ..), ?_,
          ⟨rfl, hPrevious, head, (hTaken.others _ hApart).trans hBefore, hTaken.queued⟩,
          hTaken.ne_zero, hTaken.entry, hTaken.value,
          fun a ha => hTaken.others a fun hMem => ha (mem_cons_of_mem _ hMem)⟩
        rw [map_cons, hTaken.threads]
        exact (hErase _).symm

/-- Either the queue has no entry of the thread and stays as it is, or the first one is taken
out of it. -/
theorem removeFromQueue_taken (h : Queued entries head queue) (hNodup : (queue.map fst).Nodup)
    (hFuel : queue.length ≤ fuel) {threads : List Tid} (hThreads : queue.map snd = threads)
    (thread : Tid) :
    Scheduler.removeFromQueue threads thread = none ∧
        removeFromQueue fuel entries head thread = some ⟨0, head, entries⟩ ∨
      ∃ removal rest, Scheduler.removeFromQueue threads thread = some (rest.map snd) ∧
        removeFromQueue fuel entries head thread = some removal ∧
        Taken entries queue thread removal rest := by
  subst hThreads
  cases queue with
  | nil => exact .inl ⟨rfl, if_pos h⟩
  | cons first queue =>
    obtain ⟨_, other⟩ := first
    obtain ⟨rfl, hNe, next, hEntry, hRest⟩ := h
    dsimp only at hNe hEntry
    rw [removeFromQueue, if_neg hNe, hEntry]
    by_cases hThread : other = thread
    · subst hThread
      have hErase : (other :: queue.map snd).erase other = queue.map snd := erase_cons_head ..
      refine .inr ⟨⟨head, next, entries⟩, queue, ?_, if_pos rfl, .refl _, hErase.symm, hRest, hNe,
        ⟨next, hEntry⟩, fun _ => rfl, fun _ _ => rfl⟩
      rw [Scheduler.removeFromQueue, map_cons, if_pos (mem_cons_self ..), hErase]
    · obtain ⟨fuel, rfl⟩ : ∃ k, fuel = k + 1 := ⟨fuel - 1, by simp at hFuel; omega⟩
      simp only [if_neg hThread, removeBehind, if_neg hNe, hEntry, Scheduler.removeFromQueue]
      rcases removeBehind_taken hNe hEntry hRest hNodup (by simpa using hFuel) hThread with
        ⟨hAbsent, hLoop⟩ | ⟨found, entries', rest, hMem, hLoop, hTaken⟩
      · exact .inl ⟨if_neg (not_mem_cons_of_ne_of_not_mem (Ne.symm hThread) hAbsent), by rw [hLoop]; rfl⟩
      · exact .inr ⟨_, rest, (if_pos (mem_cons_of_mem _ hMem)).trans (congrArg some hTaken.threads.symm),
          by rw [hLoop]; rfl, hTaken⟩

namespace Taken

variable {removal : Removal} (h : Taken entries queue thread removal rest) {a next : Nat}
include h

theorem mem : removal.removedEntry ∈ queue.map fst :=
  (h.perm.map fst).mem_iff.mpr (mem_cons_self ..)

theorem others_of_not_mem (ha : a ∉ queue.map fst) : removal.entries a = entries a :=
  h.others a fun hRest => ha ((h.perm.map fst).mem_iff.mpr (mem_cons_of_mem _ hRest))

theorem setNext_eq (next : Nat) : setNext removal.entries removal.removedEntry next =
    update removal.entries removal.removedEntry (some ⟨thread, next⟩) := by
  obtain ⟨old, hEntry⟩ := h.entry
  rw [setNext, hEntry]
  rfl

theorem setNext_of_not_mem (ha : a ∉ queue.map fst) :
    setNext removal.entries removal.removedEntry next a = entries a := by
  rw [h.setNext_eq, update_of_ne (ne_of_mem_of_not_mem h.mem ha).symm, h.others_of_not_mem ha]

theorem value_setNext (a : Nat) :
    valueAt (setNext removal.entries removal.removedEntry next) a = valueAt entries a := by
  obtain ⟨old, hEntry⟩ := h.entry
  rw [h.setNext_eq, valueAt_relink hEntry, h.value]

theorem remaining (hNodup : (queue.map fst).Nodup) :
    Queued (setNext removal.entries removal.removedEntry next) removal.queueHead rest := by
  rw [h.setNext_eq]
  exact h.queued.update (nodup_cons.mp ((h.perm.map fst).nodup_iff.mp hNodup)).1

theorem front {other : List (Nat × Tid)}
    (hOther : Queued (setNext removal.entries removal.removedEntry next) next other) :
    Queued (setNext removal.entries removal.removedEntry next) removal.removedEntry
      ((removal.removedEntry, thread) :: other) := by
  refine ⟨rfl, h.ne_zero, next, ?_, hOther⟩
  rw [h.setNext_eq, update_self]

end Taken

end Queued

section Queues

variable {m t : EntryMemory} {s s' : Scheduler} {run wait run' wait' : List (Nat × Tid)}
variable {idle idle' : List Nat} {address : Nat}

/-- The two queues and the entries of idle threads are all the entries there are, and no entry
is in two places. -/
structure Lists (m : EntryMemory) (run wait idle : List Nat) : Prop where
  runChain : Chain m.entries m.runQueue run
  waitChain : Chain m.entries m.waitQueue wait
  nodup : (run ++ wait ++ idle).Nodup
  live : ∀ a, (m.entries a).isSome = true ↔ a ∈ run ++ wait ++ idle
  size : m.size = (run ++ wait ++ idle).length

/-- The queues in memory hold the threads of the scheduler in their order. -/
structure Holds (m : EntryMemory) (s : Scheduler) (run wait : List (Nat × Tid)) (idle : List Nat) :
    Prop where
  runQueued : Queued m.entries m.runQueue run
  waitQueued : Queued m.entries m.waitQueue wait
  nodup : ((run ++ wait).map fst ++ idle).Nodup
  live : ∀ a, (m.entries a).isSome = true ↔ a ∈ (run ++ wait).map fst ++ idle
  size : m.size = ((run ++ wait).map fst ++ idle).length
  runThreads : run.map snd = s.runQueue
  waitThreads : wait.map snd = s.waitQueue

def Follows (result : Option EntryMemory) (s : Scheduler) : Prop :=
  ∃ t run wait idle, result = some t ∧ Holds t s run wait idle

theorem Holds.lists (h : Holds m s run wait idle) : Lists m (run.map fst) (wait.map fst) idle := by
  obtain ⟨hRun, hWait, hNodup, hLive, hSize, -, -⟩ := h
  rw [map_append] at hNodup hSize
  simp only [map_append] at hLive
  exact ⟨hRun.chain, hWait.chain, hNodup, hLive, hSize⟩

theorem Holds.rearrange (h : Holds m s run wait idle) (hSize : t.size = m.size)
    (hValue : ∀ a, valueAt t.entries a = valueAt m.entries a)
    (hRun : Queued t.entries t.runQueue run') (hWait : Queued t.entries t.waitQueue wait')
    (hPerm : List.Perm ((run' ++ wait').map fst ++ idle') ((run ++ wait).map fst ++ idle))
    (hRunThreads : run'.map snd = s'.runQueue)
    (hWaitThreads : wait'.map snd = s'.waitQueue) : Holds t s' run' wait' idle' := by
  refine ⟨hRun, hWait, hPerm.nodup_iff.mpr h.nodup, fun a => ?_, ?_, hRunThreads, hWaitThreads⟩
  · have hLive := congrArg Option.isSome (hValue a)
    rw [valueAt, valueAt, Option.isSome_map, Option.isSome_map] at hLive
    rw [hLive, h.live, hPerm.mem_iff]
  · rw [hSize, h.size, hPerm.length_eq]

/-- An entry that is in no queue may be written. -/
theorem Holds.write {size : Nat} {e : Option TaskEntry} (h : Holds m s run wait idle)
    (hNotIn : address ∉ (run ++ wait).map fst)
    (hNodup : ((run ++ wait).map fst ++ idle').Nodup)
    (hLive : ∀ a, (update m.entries address e a).isSome = true ↔
      a ∈ (run ++ wait).map fst ++ idle')
    (hSize : size = ((run ++ wait).map fst ++ idle').length) :
    Holds { m with entries := update m.entries address e, size := size } s run wait idle' := by
  rw [map_append, mem_append, not_or] at hNotIn
  exact ⟨h.runQueued.update hNotIn.1, h.waitQueued.update hNotIn.2, hNodup, hLive, hSize, h.runThreads,
    h.waitThreads⟩

theorem Holds.insert (h : Holds m s run wait idle) (hFresh : m.entries address = none)
    (e : TaskEntry) :
    Holds { m with entries := update m.entries address (some e), size := m.size + 1 } s run wait
      (address :: idle) := by
  have hNotIn : address ∉ (run ++ wait).map fst ++ idle := by
    rw [← h.live, hFresh]
    exact Bool.false_ne_true
  refine h.write (fun hMem => hNotIn (mem_append_left _ hMem))
    (perm_middle.nodup_iff.mpr (nodup_cons.mpr ⟨hNotIn, h.nodup⟩)) (fun a => ?_) ?_
  · rw [perm_middle.mem_iff, mem_cons]
    by_cases ha : a = address
    · simp [ha]
    · rw [update_of_ne ha, h.live, or_iff_right ha]
  · rw [perm_middle.length_eq, length_cons, ← h.size]

theorem Holds.delete (h : Holds m s run wait (address :: idle)) :
    Holds (m.delete address) s run wait idle := by
  obtain ⟨hNotIn, hNodup⟩ := nodup_cons.mp (perm_middle.nodup_iff.mp h.nodup)
  refine h.write (fun hMem => hNotIn (mem_append_left _ hMem)) hNodup (fun a => ?_) ?_
  · by_cases ha : a = address
    · subst ha
      simpa using hNotIn
    · rw [update_of_ne ha, h.live, perm_middle.mem_iff, mem_cons, or_iff_right ha]
  · rw [h.size, perm_middle.length_eq]
    rfl

section

variable (h : Holds m s run wait idle)

include h

theorem Holds.apart : (run.map fst).Nodup ∧ (wait.map fst).Nodup ∧
      ∀ a ∈ run.map fst, a ∉ wait.map fst := by
  have hNodup := (nodup_append.mp h.nodup).1
  rw [map_append, nodup_append] at hNodup
  exact ⟨hNodup.1, hNodup.2.1, fun a hRun hWait => hNodup.2.2 a hRun a hWait rfl⟩

theorem Holds.fuel : run.length ≤ m.size ∧ wait.length ≤ m.size := by
  rw [h.size]
  simp only [length_append, length_map]
  omega

theorem moveToRunQueue_holds (thread : Tid) :
    Follows (m.moveToRunQueue thread) (s.moveToRunQueue thread) := by
  unfold EntryMemory.moveToRunQueue Scheduler.moveToRunQueue
  rcases removeFromQueue_taken h.waitQueued h.apart.2.1 h.fuel.2 h.waitThreads thread with
    ⟨hNone, hRemove⟩ | ⟨removal, rest, hSome, hRemove, hTaken⟩
  · rw [hRemove, hNone]
    exact ⟨m, run, wait, idle, rfl, h⟩
  · rw [hRemove, hSome, Option.map_some, if_neg hTaken.ne_zero]
    refine ⟨_, (removal.removedEntry, thread) :: run, rest, idle, rfl, h.rearrange rfl hTaken.value_setNext
      (hTaken.front (h.runQueued.congr fun a ha => hTaken.setNext_of_not_mem (h.apart.2.2 a ha)))
      (hTaken.remaining h.apart.2.1) (.append_right idle (.map _ ?_)) ?_ rfl⟩
    · exact perm_middle.symm.trans (.append_left run hTaken.perm.symm)
    · rw [map_cons, h.runThreads]

theorem moveToWaitQueue_holds (thread : Tid) :
    Follows (m.moveToWaitQueue thread) (s.moveToWaitQueue thread) := by
  unfold EntryMemory.moveToWaitQueue Scheduler.moveToWaitQueue
  rcases removeFromQueue_taken h.runQueued h.apart.1 h.fuel.1 h.runThreads thread with
    ⟨hNone, hRemove⟩ | ⟨removal, rest, hSome, hRemove, hTaken⟩
  · rw [hRemove, hNone]
    exact ⟨m, run, wait, idle, rfl, h⟩
  · rw [hRemove, hSome, Option.map_some, if_neg hTaken.ne_zero]
    refine ⟨_, rest, (removal.removedEntry, thread) :: wait, idle, rfl, h.rearrange rfl hTaken.value_setNext
      (hTaken.remaining h.apart.1) (hTaken.front (h.waitQueued.congr fun a ha =>
        hTaken.setNext_of_not_mem fun hRun => h.apart.2.2 a hRun ha))
      (.append_right idle (.map _ ?_)) rfl ?_⟩
    · exact perm_middle.trans (.append_right wait hTaken.perm.symm)
    · rw [map_cons, h.waitThreads]

/-- The run queue is not touched, and the wait queue has the same entries afterwards. -/
theorem increaseWaitPriority_holds (thread : Tid) :
    ∃ t wait', m.increaseWaitPriority thread = some t ∧
      Holds t (s.increaseWaitPriority thread) run wait' idle ∧ wait'.Perm wait ∧
      t.runQueue = m.runQueue ∧ t.idleEntry = m.idleEntry ∧ t.currentEntry = m.currentEntry ∧
      (∀ a, valueAt t.entries a = valueAt m.entries a) ∧
      ∀ a ∉ wait.map fst, t.entries a = m.entries a := by
  unfold EntryMemory.increaseWaitPriority Scheduler.increaseWaitPriority
  rcases removeFromQueue_taken h.waitQueued h.apart.2.1 h.fuel.2 h.waitThreads thread with
    ⟨hNone, hRemove⟩ | ⟨removal, rest, hSome, hRemove, hTaken⟩
  · rw [hRemove, hNone]
    exact ⟨m, wait, rfl, h, .refl _, rfl, rfl, rfl, fun _ => rfl, fun _ _ => rfl⟩
  · rw [hRemove, hSome, Option.map_some, if_neg hTaken.ne_zero]
    refine ⟨_, (removal.removedEntry, thread) :: rest, rfl, h.rearrange rfl hTaken.value_setNext
      (h.runQueued.congr fun a ha => hTaken.setNext_of_not_mem (h.apart.2.2 a ha))
      (hTaken.front (hTaken.remaining h.apart.2.1))
      (.append_right idle (.map _ (.append_left run hTaken.perm.symm))) h.runThreads rfl,
      hTaken.perm.symm, rfl, rfl, rfl, hTaken.value_setNext, fun _ => hTaken.setNext_of_not_mem⟩

theorem remove_holds (thread : Tid) : Follows (m.remove thread) (s.remove thread) := by
  unfold EntryMemory.remove Scheduler.remove
  rcases removeFromQueue_taken h.runQueued h.apart.1 h.fuel.1 h.runThreads thread with
    ⟨hNone, hRemove⟩ | ⟨removal, rest, hSome, hRemove, hTaken⟩
  · rw [hRemove, hNone]
    dsimp only
    rcases removeFromQueue_taken h.waitQueued h.apart.2.1 h.fuel.2 h.waitThreads thread with
      ⟨hNone, hRemove⟩ | ⟨removal, rest, hSome, hRemove, hTaken⟩
    · rw [hRemove, hNone]
      exact ⟨m, run, wait, idle, rfl, h⟩
    · rw [hRemove, hSome]
      dsimp only
      rw [if_neg hTaken.ne_zero]
      refine ⟨_, run, rest, idle, rfl, .delete (h.rearrange rfl hTaken.value (h.runQueued.congr fun a ha =>
        hTaken.others_of_not_mem (h.apart.2.2 a ha)) hTaken.queued ?_ h.runThreads rfl)⟩
      have hPerm := perm_middle.symm.trans (.append_left run hTaken.perm.symm)
      exact perm_middle.trans (.append_right idle (hPerm.map fst))
  · rw [hRemove, hSome]
    dsimp only
    rw [if_pos hTaken.ne_zero]
    refine ⟨_, rest, wait, idle, rfl, .delete (h.rearrange rfl hTaken.value hTaken.queued
      (h.waitQueued.congr fun a ha => hTaken.others_of_not_mem fun hRun => h.apart.2.2 a hRun ha) ?_ rfl
      h.waitThreads)⟩
    have hPerm := hTaken.perm.symm.append_right wait
    exact perm_middle.trans (.append_right idle (hPerm.map fst))

end

/-- A thread that exists already is put in front of the run queue, or becomes the idle
thread. -/
def enqueue (s : Scheduler) (thread : Tid) : ThreadPriority → Scheduler
  | .idle => { s with idleEntry := some thread }
  | .normal => { s with runQueue := thread :: s.runQueue }

theorem add_holds (h : Holds m s run wait idle) (hNe : address ≠ 0)
    (hFresh : m.entries address = none) (thread : Tid) (priority : ThreadPriority) :
    ∃ run' idle', Holds (m.add thread priority address) (enqueue s thread priority) run' wait idle' := by
  cases priority with
  | idle =>
    have hNew := h.insert hFresh ⟨thread, 0⟩
    exact ⟨run, address :: idle, hNew.rearrange rfl (fun _ => rfl) hNew.runQueued hNew.waitQueued (.refl _)
      hNew.runThreads hNew.waitThreads⟩
  | normal =>
    have hNew := h.insert hFresh ⟨thread, m.runQueue⟩
    refine ⟨(address, thread) :: run, idle, hNew.rearrange rfl (fun _ => rfl)
      ⟨rfl, hNe, m.runQueue, update_self .., hNew.runQueued⟩ hNew.waitQueued perm_middle.symm ?_
      hNew.waitThreads⟩
    rw [map_cons, hNew.runThreads]
    rfl

end Queues

section Runs

variable {m t : EntryMemory} {s : Scheduler} {run wait : List (Nat × Tid)} {idle : List Nat} {op : Op}
variable {thread : Tid}
variable {ops : List Op} {queue : List Tid}

def apply (s : Scheduler) : Op → Scheduler
  | .add thread priority _ => enqueue s thread priority
  | .moveToRunQueue thread => s.moveToRunQueue thread
  | .moveToWaitQueue thread => s.moveToWaitQueue thread
  | .increaseWaitPriority thread => s.increaseWaitPriority thread
  | .remove thread => s.remove thread

/-- The allocator answers with an address that is not in use. -/
def Op.Allocated (m : EntryMemory) : Op → Prop
  | .add _ _ address => address ≠ 0 ∧ m.entries address = none
  | _ => True

/-- Every operation returns, and the linked queues follow the lists. -/
theorem execute_holds (h : Holds m s run wait idle) (hOp : op.Allocated m) :
    Follows (execute m op) (apply s op) := by
  cases op with
  | add thread priority address =>
    obtain ⟨run', idle', hAdd⟩ := add_holds h hOp.1 hOp.2 thread priority
    exact ⟨_, run', wait, idle', if_pos hOp, hAdd⟩
  | moveToRunQueue thread => exact moveToRunQueue_holds h thread
  | moveToWaitQueue thread => exact moveToWaitQueue_holds h thread
  | increaseWaitPriority thread =>
    obtain ⟨t, wait', hStep, hHolds, -⟩ := increaseWaitPriority_holds h thread
    exact ⟨t, run, wait', idle, hStep, hHolds⟩
  | remove thread => exact remove_holds h thread

theorem step_holds (h : Holds m s run wait idle) (hStep : Step m op t) :
    ∃ run' wait' idle', Holds t (apply s op) run' wait' idle' := by
  have hOp : op.Allocated m := by
    cases op with
    | add thread priority address =>
      unfold Step execute at hStep
      dsimp only at hStep
      split at hStep
      · next hFresh => exact hFresh
      · cases hStep
    | moveToRunQueue | moveToWaitQueue | increaseWaitPriority | remove => trivial
  obtain ⟨t', run', wait', idle', hStep', hHolds⟩ := execute_holds h hOp
  cases hStep.symm.trans hStep'
  exact ⟨run', wait', idle', hHolds⟩

theorem run_holds (run : Run Step EntryMemory.new ops m) : ∃ runEntries waitEntries idleEntries,
      Holds m (ops.foldl apply (.new default default)) runEntries waitEntries idleEntries := by
  induction run with
  | nil =>
    refine ⟨[], [], [], rfl, rfl, by simp, ?_, rfl, rfl, rfl⟩
    intro a
    simp [EntryMemory.new]
  | snoc prior last ih =>
    obtain ⟨runEntries, waitEntries, idleEntries, hHolds⟩ := ih
    rw [foldl_append]
    exact step_holds hHolds last

/-- How many entries a thread is owed after an operation. -/
def owed (thread : Tid) (count : Nat) : Op → Nat
  | .add other .normal _ => if other = thread then count + 1 else count
  | .remove other => if other = thread then count - 1 else count
  | _ => count

theorem count_removeFromQueue {rest : List Tid} {other : Tid}
    (h : Scheduler.removeFromQueue queue other = some rest) (thread : Tid) :
    queue.count thread = rest.count thread + if other = thread then 1 else 0 := by
  unfold Scheduler.removeFromQueue at h
  split at h
  · next hMem =>
      cases h
      rw [(perm_cons_erase hMem).count_eq, count_cons]
      simp
  · cases h

theorem count_eq_zero_of_removeFromQueue
    (h : Scheduler.removeFromQueue queue thread = none) : queue.count thread = 0 := by
  unfold Scheduler.removeFromQueue at h
  split at h
  · cases h
  · next hNot => exact count_eq_zero_of_not_mem hNot

/-- Moving an entry neither adds nor loses one. -/
theorem count_apply (s : Scheduler) (op : Op) (thread : Tid) :
    ((apply s op).runQueue ++ (apply s op).waitQueue).count thread =
      owed thread ((s.runQueue ++ s.waitQueue).count thread) op := by
  simp only [count_append]
  cases op with
  | add other priority address =>
    cases priority with
    | idle => rfl
    | normal =>
      simp only [apply, enqueue, owed, count_cons, beq_iff_eq]
      split <;> omega
  | moveToRunQueue other | moveToWaitQueue other | increaseWaitPriority other =>
    simp only [apply, Scheduler.moveToRunQueue, Scheduler.moveToWaitQueue,
      Scheduler.increaseWaitPriority, owed]
    split
    · rfl
    · next hQueue =>
        have hCount := count_removeFromQueue hQueue thread
        simp only [count_cons, beq_iff_eq]
        omega
  | remove other =>
    simp only [apply, Scheduler.remove, owed]
    split
    · next hQueue =>
        dsimp only
        rw [count_removeFromQueue hQueue]
        split <;> omega
    · next hRun =>
        split
        · next hQueue =>
            dsimp only
            rw [count_removeFromQueue hQueue]
            split
            · next hSame =>
                subst hSame
                omega
            · omega
        · next hWait =>
            split
            · next hSame =>
                subst hSame
                rw [count_eq_zero_of_removeFromQueue hRun, count_eq_zero_of_removeFromQueue hWait]
            · rfl

/-- Whether a thread belongs to the queues after an operation. -/
def belongs (thread : Tid) (known : Bool) : Op → Bool
  | .add other .normal _ => known || decide (other = thread)
  | .remove other => known && decide (other ≠ thread)
  | _ => known

/-- The thread has been added to the queues and not been removed. -/
def present (thread : Tid) (ops : List Op) : Bool :=
  ops.foldl (belongs thread) false

theorem present_concat (thread : Tid) (ops : List Op) (op : Op) :
    present thread (ops ++ [op]) = belongs thread (present thread ops) op := by
  rw [present, foldl_append]
  rfl

/-- The thread is not added again while it has an entry. -/
def AddedOnce (thread : Tid) (ops : List Op) : Prop :=
  ∀ before address after, ops = before ++ .add thread .normal address :: after →
    present thread before = false

theorem AddedOnce.prior (h : AddedOnce thread (ops ++ [op])) : AddedOnce thread ops := by
  intro before address after hOps
  refine h before address (after ++ [op]) ?_
  rw [hOps]
  simp

theorem count_queues (h : AddedOnce thread ops) :
    ((ops.foldl apply (.new default default)).runQueue ++
      (ops.foldl apply (.new default default)).waitQueue).count thread =
      if present thread ops then 1 else 0 := by
  induction ops using reverseRecOn with
  | nil => rfl
  | append_singleton ops op ih =>
    rw [foldl_append, foldl_cons, foldl_nil, count_apply, ih h.prior, present_concat]
    cases op with
    | add other priority address =>
      cases priority with
      | idle => rfl
      | normal =>
        by_cases hOther : other = thread
        · subst hOther
          have hAbsent := h ops address [] rfl
          simp [owed, belongs, hAbsent]
        · simp [owed, belongs, hOther]
    | remove other =>
      by_cases hOther : other = thread
      · subst hOther
        cases present other ops <;> simp [owed, belongs]
      · simp [owed, belongs, hOther]
    | moveToRunQueue | moveToWaitQueue | increaseWaitPriority => rfl

theorem countP_valueAt {entries : Entries} {head : Nat} {queue : List (Nat × Tid)}
    (h : Queued entries head queue) (thread : Tid) :
    (queue.map fst).countP (fun a => decide (valueAt entries a = some thread)) =
      (queue.map snd).count thread := by
  have hCount := congrArg (count (some thread)) h.valueAt
  rw [count_map_of_injective _ _ fun _ _ => Option.some.inj] at hCount
  rw [← hCount, count, countP_map, countP_map, countP_map]
  refine countP_congr fun x _ => ?_
  simp

/-- After any operations the queues are two lists that end, and they hold every entry of a thread
that was added and not removed once. Every further operation returns, and raising the priority of
a waiting thread only reorders the wait queue. -/
theorem queues_hold_added_threads {ops : List Op} (run : Run Step EntryMemory.new ops m) :
    ∃ runEntries waitEntries idleEntries, Lists m runEntries waitEntries idleEntries ∧
      (∀ thread, AddedOnce thread ops →
        (runEntries ++ waitEntries).countP (fun a => decide (valueAt m.entries a = some thread)) =
          if present thread ops then 1 else 0) ∧
      (∀ op : Op, op.Allocated m → ∃ t, Step m op t) ∧
      ∀ thread, ∃ t reordered, Step m (.increaseWaitPriority thread) t ∧
        Lists t runEntries reordered idleEntries ∧ reordered.Perm waitEntries ∧
        t.runQueue = m.runQueue ∧ t.idleEntry = m.idleEntry ∧ t.currentEntry = m.currentEntry ∧
        (∀ a, valueAt t.entries a = valueAt m.entries a) ∧
        ∀ a ∉ waitEntries, t.entries a = m.entries a := by
  obtain ⟨runEntries, waitEntries, idleEntries, hHolds⟩ := run_holds run
  refine ⟨_, _, idleEntries, hHolds.lists, ?_, ?_, ?_⟩
  · intro thread hOnce
    rw [countP_append, countP_valueAt hHolds.runQueued, countP_valueAt hHolds.waitQueued,
      hHolds.runThreads, hHolds.waitThreads, ← count_append, count_queues hOnce]
  · intro op hOp
    obtain ⟨t, -, -, -, hStep, -⟩ := execute_holds hHolds hOp
    exact ⟨t, hStep⟩
  · intro thread
    obtain ⟨t, reordered, hStep, hAfter, hPerm, hRest⟩ := increaseWaitPriority_holds hHolds thread
    exact ⟨t, _, hStep, hAfter.lists, hPerm.map fst, hRest⟩

/-- Two threads; the first one waits and the second one is removed. -/
def fewOperations : List Op :=
  [.add 1 .normal 8, .add 2 .normal 16, .moveToWaitQueue 1, .remove 2]

/-- After these operations the first thread has one entry and the second one has none. -/
theorem queues_hold_added_threads_few :
    ∃ m runEntries waitEntries idleEntries, Run Step EntryMemory.new fewOperations m ∧
      Lists m runEntries waitEntries idleEntries ∧
      (runEntries ++ waitEntries).countP (fun a => decide (valueAt m.entries a = some 1)) = 1 ∧
      (runEntries ++ waitEntries).countP (fun a => decide (valueAt m.entries a = some 2)) = 0 := by
  have hRun : Run Step EntryMemory.new fewOperations (replay execute .new fewOperations) :=
    run_replay rfl
  have hOnce : ∀ thread, AddedOnce thread fewOperations := by
    intro thread before address after hOps
    rcases before with _ | ⟨first, _ | ⟨second, _ | ⟨third, _ | ⟨fourth, rest⟩⟩⟩⟩
    · rfl
    · simp only [fewOperations, cons_append, nil_append, cons.injEq, Op.add.injEq]
        at hOps
      rw [← hOps.1, ← hOps.2.1.1]
      rfl
    all_goals simp [fewOperations] at hOps
  obtain ⟨runEntries, waitEntries, idleEntries, hLists, hCount, -⟩ := queues_hold_added_threads hRun
  exact ⟨_, runEntries, waitEntries, idleEntries, hRun, hLists, hCount 1 (hOnce 1),
    hCount 2 (hOnce 2)⟩

/-- A thread that is added again while it has an entry gets another one. -/
theorem added_again_two_entries :
    ∃ m, Run Step EntryMemory.new [.add 1 .normal 8, .add 1 .normal 16] m ∧
      Chain m.entries m.runQueue [16, 8] ∧
      valueAt m.entries 16 = some 1 ∧ valueAt m.entries 8 = some 1 :=
  ⟨_, run_replay rfl, ⟨⟨rfl, by decide, rfl, by decide, rfl⟩, by decide⟩, rfl, rfl⟩

/-- In every history the entries, read along their links, hold the queues of the list scheduler
after the same operations, in its order. -/
theorem linked_queues_refine (run : Run Step EntryMemory.new ops m) : ∃ runEntries waitEntries,
      Chain m.entries m.runQueue runEntries ∧ Chain m.entries m.waitQueue waitEntries ∧
      runEntries.map (valueAt m.entries) =
        (ops.foldl apply (.new default default)).runQueue.map some ∧
      waitEntries.map (valueAt m.entries) =
        (ops.foldl apply (.new default default)).waitQueue.map some := by
  obtain ⟨_, _, _, hHolds⟩ := run_holds run
  rw [← hHolds.runThreads, ← hHolds.waitThreads]
  exact ⟨_, _, hHolds.runQueued.chain, hHolds.waitQueued.chain, hHolds.runQueued.valueAt,
    hHolds.waitQueued.valueAt⟩

theorem linked_queues_refine_few :
    ∃ m entries, Run Step EntryMemory.new fewOperations m ∧ Chain m.entries m.waitQueue entries ∧
      entries.map (valueAt m.entries) = [some 1] := by
  have hRun : Run Step EntryMemory.new fewOperations (replay execute .new fewOperations) :=
    run_replay rfl
  obtain ⟨_, entries, -, hChain, -, hWait⟩ := linked_queues_refine hRun
  exact ⟨_, entries, hRun, hChain, hWait⟩

end Runs

end Kernel.TaskEntries
