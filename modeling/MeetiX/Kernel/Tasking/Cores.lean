import MeetiX.Kernel.Messaging.MessageHistory
import MeetiX.Kernel.Tasking.Interruption

/-! The schedulers of all cores, and the system call `sendMessage`, which works on the queues of the
core that the sender runs on. -/
namespace Kernel

open Base MessageController List Option

/-- A core on which tasking has not been enabled has the null pointer for a scheduler. -/
structure Cores where
  schedulers : List (Option Scheduler)
  messages : State

inductive MessageSendMode
  | blocking
  | nonBlocking
  deriving DecidableEq

/-- What the system call reads; the buffer is as long as the length it is given with. -/
structure SyscallSendMessage where
  receiver : Tid
  buffer : List UInt8
  transaction : Nat
  mode : MessageSendMode

namespace Cores

section Calls

variable (s : Cores) (core : Nat)

/-- `Tasking::currentScheduler` on a core; without a scheduler the kernel panics. -/
def currentScheduler : Option Scheduler := (s.schedulers[core]?).join

def setScheduler (scheduler : Scheduler) : Cores :=
  { s with schedulers := s.schedulers.set core (some scheduler) }

def getTaskById (id : Tid) : Option Tid :=
  s.schedulers.findSome? fun scheduler => scheduler.bind fun scheduler => scheduler.getTaskById id

def increaseWaitPriority (thread : Tid) : Option Cores :=
  (s.currentScheduler core).map fun scheduler =>
    s.setScheduler core (scheduler.increaseWaitPriority thread)

/-- The system call `sendMessage` of the thread that runs on a core. A sender that has to wait for
room in the queue gets the waiter at `waiter`, and another thread is scheduled. -/
def sendMessage (heap : BlockSource) (data : SyscallSendMessage) (waiter : Nat)
    (checks : Tid → Scheduler.Check) : Option (SendStatus × Cores) := do
  let scheduler ← s.currentScheduler core
  let sender ← scheduler.running
  let (status, messages) ← MessageController.sendMessage heap s.messages data.receiver sender
    data.buffer data.transaction
  let s := { s with messages := messages }
  if status = .successful then
    match s.getTaskById data.receiver with
    | none => some (status, s)
    | some receiver => (s.increaseWaitPriority core receiver).map fun s => (status, s)
  else if data.mode = .blocking ∧ status = .queueFull then
    let scheduler ← (scheduler.wait sender (some (.object waiter))).schedule checks
    some (status, s.setScheduler core scheduler)
  else some (status, s)

end Calls

/-- Every thread has its entries in the queues of the core it is assigned to only. -/
def Assigned (s : Cores) (assigned : Tid → Nat) : Prop :=
  ∀ core scheduler, s.currentScheduler core = some scheduler → ∀ thread,
    thread ∈ scheduler.runQueue ∨ thread ∈ scheduler.waitQueue → assigned thread = core

def queuesOf (s : Cores) (core : Nat) : Option (List Tid × List Tid) :=
  (s.currentScheduler core).map fun scheduler => (scheduler.runQueue, scheduler.waitQueue)

/-- The thread is the first one in the wait queue of its core, and the queues of the other cores
have not changed. -/
structure MovedUp (s t : Cores) (core : Nat) (thread : Tid) : Prop where
  first : ∃ scheduler, t.currentScheduler core = some scheduler ∧
    scheduler.waitQueue.head? = some thread
  others : ∀ other, other ≠ core → t.queuesOf other = s.queuesOf other

section Facts

variable {s t : Cores} {core : Nat} {scheduler : Scheduler} {thread : Tid}

theorem schedulers_eq_some : s.currentScheduler core = some scheduler ↔
    s.schedulers[core]? = some (some scheduler) := by
  rw [currentScheduler, join_eq_some_iff]

theorem currentScheduler_setScheduler (h : s.currentScheduler core = some scheduler)
    (new : Scheduler) (other : Nat) : (s.setScheduler core new).currentScheduler other =
      if other = core then some new else s.currentScheduler other := by
  have hLength : core < s.schedulers.length :=
    (List.getElem?_eq_some_iff.mp (schedulers_eq_some.mp h)).1
  unfold currentScheduler setScheduler
  by_cases hOther : other = core
  · rw [if_pos hOther, hOther, getElem?_set_self hLength]
    rfl
  · rw [if_neg hOther, getElem?_set_ne (Ne.symm hOther)]

theorem getTaskById_of_mem (hAlive : (scheduler.threads thread).alive = true)
    (hMem : thread ∈ scheduler.waitQueue) : scheduler.getTaskById thread ≠ none := by
  intro hNone
  have hWait := (or_eq_none_iff.mp hNone).2
  have hNot := find?_eq_none.mp hWait thread hMem
  simp [hAlive] at hNot

theorem getTaskById_eq {assigned : Tid → Nat} (hAssigned : s.Assigned assigned)
    (hScheduler : s.currentScheduler (assigned thread) = some scheduler)
    (hMem : thread ∈ scheduler.waitQueue) :
    s.getTaskById thread =
      if (scheduler.threads thread).alive = true then some thread else none := by
  cases hFound : s.getTaskById thread with
  | none =>
    have hNone := findSome?_eq_none_iff.mp hFound (some scheduler)
      (mem_of_getElem? (schedulers_eq_some.mp hScheduler))
    rw [if_neg fun hAlive => getTaskById_of_mem hAlive hMem hNone]
  | some found =>
    obtain ⟨entry, hEntry, hTask⟩ := exists_of_findSome?_eq_some hFound
    obtain ⟨other, rfl, hTask⟩ := bind_eq_some_iff.mp hTask
    obtain ⟨rfl, hAlive, hIn⟩ := Scheduler.getTaskById_eq_some hTask
    obtain ⟨index, hIndex⟩ := mem_iff_getElem?.mp hEntry
    have hHere := hAssigned index other (schedulers_eq_some.mpr hIndex) found hIn
    rw [hHere, schedulers_eq_some.mpr hIndex] at hScheduler
    cases hScheduler
    rw [if_pos hAlive]

/-- Apart from the messages, a successful call changes at most the scheduler of the sending core. -/
theorem sendMessage_successful {heap : BlockSource} {data : SyscallSendMessage} {waiter : Nat}
    {checks : Tid → Scheduler.Check}
    (h : s.sendMessage core heap data waiter checks = some (.successful, t)) :
    ∃ messages sending, s.currentScheduler core = some sending ∧
      (s.getTaskById data.receiver = none ∧ t = { s with messages := messages } ∨
        ∃ receiver, s.getTaskById data.receiver = some receiver ∧
          t = { s with messages := messages }.setScheduler core
            (sending.increaseWaitPriority receiver)) := by
  obtain ⟨sending, hSending, h⟩ := bind_eq_some_iff.mp h
  obtain ⟨sender, -, h⟩ := bind_eq_some_iff.mp h
  obtain ⟨⟨status, messages⟩, -, h⟩ := bind_eq_some_iff.mp h
  refine ⟨messages, sending, hSending, ?_⟩
  dsimp only at h
  split at h
  · have hLookup : { s with messages := messages }.getTaskById data.receiver =
        s.getTaskById data.receiver := rfl
    rw [hLookup] at h
    cases hReceiver : s.getTaskById data.receiver with
    | none =>
      rw [hReceiver] at h
      cases h
      exact .inl ⟨rfl, rfl⟩
    | some receiver =>
      rw [hReceiver] at h
      have hHere : { s with messages := messages }.currentScheduler core = some sending := hSending
      simp only [increaseWaitPriority, hHere] at h
      cases h
      exact .inr ⟨receiver, rfl, rfl⟩
  · next hStatus =>
      split at h
      · obtain ⟨next, -, h⟩ := bind_eq_some_iff.mp h
        cases h
        exact absurd rfl hStatus
      · cases h
        exact absurd rfl hStatus

theorem waitQueue_increaseWaitPriority (scheduler : Scheduler) (thread : Tid) :
    (scheduler.increaseWaitPriority thread).waitQueue =
      if thread ∈ scheduler.waitQueue then thread :: scheduler.waitQueue.erase thread
      else scheduler.waitQueue := by
  unfold Scheduler.increaseWaitPriority Scheduler.removeFromQueue
  by_cases hMem : thread ∈ scheduler.waitQueue <;> simp [hMem]

theorem runQueue_increaseWaitPriority (scheduler : Scheduler) (thread : Tid) :
    (scheduler.increaseWaitPriority thread).runQueue = scheduler.runQueue := by
  unfold Scheduler.increaseWaitPriority
  split <;> rfl

/-- A successful send puts a waiting receiver first in its wait queue exactly when the receiver is
alive and assigned to the core of the sender, or was the first one before. -/
theorem sent_receiver_first_iff {assigned : Tid → Nat} {heap : BlockSource}
    {data : SyscallSendMessage} {waiter : Nat} {checks : Tid → Scheduler.Check}
    (hAssigned : s.Assigned assigned)
    (hScheduler : s.currentScheduler (assigned data.receiver) = some scheduler)
    (hWaits : data.receiver ∈ scheduler.waitQueue)
    (hSend : s.sendMessage core heap data waiter checks = some (.successful, t)) :
    MovedUp s t (assigned data.receiver) data.receiver ↔
      assigned data.receiver = core ∧ (scheduler.threads data.receiver).alive = true ∨
        scheduler.waitQueue.head? = some data.receiver := by
  have hFound := getTaskById_eq hAssigned hScheduler hWaits
  obtain ⟨messages, sending, hSending, hTask⟩ := sendMessage_successful hSend
  -- Where the entry has not been moved it is the first one only if it was so before.
  have hKept : (∀ other, t.queuesOf other = s.queuesOf other) →
      (MovedUp s t (assigned data.receiver) data.receiver ↔
        scheduler.waitQueue.head? = some data.receiver) := by
    intro hSame
    have hHere : t.queuesOf (assigned data.receiver) =
        some (scheduler.runQueue, scheduler.waitQueue) := by
      rw [hSame, queuesOf, hScheduler]
      rfl
    obtain ⟨after, hAfter, hQueues⟩ := map_eq_some_iff.mp hHere
    have hWaitQueue : after.waitQueue = scheduler.waitQueue := congrArg Prod.snd hQueues
    constructor
    · rintro ⟨⟨first, hFirst, hHead⟩, -⟩
      cases hAfter.symm.trans hFirst
      exact hWaitQueue ▸ hHead
    · exact fun hHead => ⟨⟨after, hAfter, hWaitQueue ▸ hHead⟩, fun other _ => hSame other⟩
  by_cases hAlive : (scheduler.threads data.receiver).alive = true
  · rw [if_pos hAlive] at hFound
    rcases hTask with ⟨hNone, -⟩ | ⟨receiver, hReceiver, rfl⟩
    · cases hFound.symm.trans hNone
    · cases hFound.symm.trans hReceiver
      have hSchedulers := currentScheduler_setScheduler
        (s := { s with messages := messages }) hSending
        (sending.increaseWaitPriority data.receiver)
      by_cases hCore : assigned data.receiver = core
      · rw [hCore] at hScheduler ⊢
        cases hSending.symm.trans hScheduler
        refine iff_of_true ⟨⟨_, (hSchedulers core).trans (if_pos rfl), ?_⟩, fun other hOther => ?_⟩
          (.inl ⟨rfl, hAlive⟩)
        · rw [waitQueue_increaseWaitPriority, if_pos hWaits]
          rfl
        · rw [queuesOf, hSchedulers other, if_neg hOther]
          rfl
      · rw [or_iff_right fun hBoth => hCore hBoth.1]
        refine hKept fun other => ?_
        rw [queuesOf, hSchedulers other]
        by_cases hOther : other = core
        · have hNotWaiting : data.receiver ∉ sending.waitQueue := fun hMem =>
            hCore (hAssigned core sending hSending data.receiver (.inr hMem))
          rw [if_pos hOther, hOther, queuesOf, hSending, map_some, map_some,
            waitQueue_increaseWaitPriority, if_neg hNotWaiting, runQueue_increaseWaitPriority]
        · rw [if_neg hOther]
          rfl
  · rw [if_neg hAlive] at hFound
    rw [or_iff_right fun hBoth => hAlive hBoth.2]
    rcases hTask with ⟨-, rfl⟩ | ⟨receiver, hReceiver, -⟩
    · exact hKept fun _ => rfl
    · cases hFound.symm.trans hReceiver

end Facts

/-- Thread 1 runs on the first core. On the second one threads 5 and 4 wait for objects, 4 before 5
in the queue, and thread 3 runs. -/
def twoCores : Cores where
  schedulers :=
    [some (replay Scheduler.execute (Scheduler.new default default)
      [.add .main .idle 0 0, .add .main .normal 1 0, Scheduler.pass]),
    some (replay Scheduler.execute { Scheduler.new default default with taskIdCounter := 2 }
      [.add .main .idle 2 0, .add .main .normal 3 0, .add .main .normal 4 0, .add .main .normal 5 0,
        Scheduler.pass, .wait 7, Scheduler.pass, .wait 8, Scheduler.pass])]
  messages := .initial

def toThreadFive : SyscallSendMessage := ⟨5, [], 0, .nonBlocking⟩

/-- Sent by thread 3 from the same core, the message brings thread 5 to the head of the queue. -/
theorem sent_receiver_first_iff_same_core :
    ∃ t, twoCores.sendMessage 1 growingHeap toThreadFive 0 (fun _ => .wait) = some (.successful, t) ∧
      twoCores.queuesOf 1 = some ([3], [4, 5]) ∧ MovedUp twoCores t 1 5 := by
  have hSend : (twoCores.sendMessage 1 growingHeap toThreadFive 0 fun _ => .wait).map Prod.fst =
      some .successful := by decide +kernel
  obtain ⟨⟨_, t⟩, hSend, rfl⟩ := map_eq_some_iff.mp hSend
  have hAssigned : twoCores.Assigned fun thread => if thread ≤ 1 then 0 else 1 := by
    rintro (_ | _ | core) scheduler hScheduler thread hThread
    all_goals cases hScheduler
    · have hOne : thread ∈ [(1 : Tid)] ∨ thread ∈ [] := hThread
      simp only [mem_singleton, not_mem_nil, or_false] at hOne
      rw [hOne]
      rfl
    · have hRest : thread ∈ [(3 : Tid)] ∨ thread ∈ [(4 : Tid), 5] := hThread
      simp only [mem_cons, not_mem_nil, or_false] at hRest
      rcases hRest with rfl | rfl | rfl <;> rfl
  refine ⟨t, hSend, rfl, (sent_receiver_first_iff hAssigned rfl ?_ hSend).mpr (.inl ⟨rfl, rfl⟩)⟩
  exact mem_cons_of_mem _ (mem_cons_self ..)

/-- Sent by thread 1 from the other core, it leaves thread 5 behind thread 4. -/
theorem receiver_on_other_core_stays_behind :
    ∃ t, twoCores.sendMessage 0 growingHeap toThreadFive 0 (fun _ => .wait) = some (.successful, t) ∧
      twoCores.queuesOf 1 = some ([3], [4, 5]) ∧ ¬MovedUp twoCores t 1 5 := by
  have hSend : (twoCores.sendMessage 0 growingHeap toThreadFive 0 fun _ => .wait).map
      (fun answer => (answer.1, answer.2.queuesOf 1)) =
        some (.successful, some ([3], [4, 5])) := by decide +kernel
  obtain ⟨⟨status, t⟩, hSend, hAnswer⟩ := map_eq_some_iff.mp hSend
  obtain ⟨rfl, hQueues⟩ := Prod.mk.inj hAnswer
  refine ⟨t, hSend, rfl, ?_⟩
  rintro ⟨⟨scheduler, hScheduler, hHead⟩, -⟩
  have hWait : scheduler.waitQueue = [4, 5] := by
    have hHere : t.queuesOf 1 = some (scheduler.runQueue, scheduler.waitQueue) := by
      rw [queuesOf, hScheduler]
      rfl
    exact congrArg Prod.snd (some.inj (hHere.symm.trans hQueues))
  rw [hWait] at hHead
  cases hHead

end Cores

end Kernel
