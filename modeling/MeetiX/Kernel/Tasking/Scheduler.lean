import MeetiX.Base.Cursor
import MeetiX.Kernel.Types

/-! The scheduler of one core with its threads. A queue entry is named by its thread, so a queue
is a list of thread identifiers, its head first, and `next` is read off the list. Following a
pointer to a deleted entry, and a kernel panic, have no result. -/
namespace Kernel

open Base Function

inductive ThreadType
  | main
  | sub
  | vm86
  deriving DecidableEq

inductive ThreadPriority
  | normal
  | idle
  deriving DecidableEq

/-- The registers pushed on an interrupt. Only the three below are read or
written by the kernel functions of this file. -/
structure ProcessorState where
  gs : Nat
  eip : Nat
  esp : Nat
  /-- The other registers, by their place in the frame. -/
  others : Nat → Nat

instance : Inhabited ProcessorState := ⟨⟨0, 0, 0, fun _ => 0⟩⟩

/-- A waiter object. The one that performs an interruption is described by its
fields, all others by their address. -/
inductive Waiter
  | performInterruption (entry callback : Nat)
  | object (address : Nat)
  deriving DecidableEq

inductive ThreadInterruptionInfoType
  | none
  | irq
  | signal
  deriving DecidableEq

structure ThreadInterruptionInfo where
  cpuState : ProcessorState
  cpuStateAddress : Nat
  waitManager : Option Waiter
  type : ThreadInterruptionInfoType
  handledIrq : Nat
  handledSignal : Int

/-- `new ThreadInterruptionInfo()` with the waiter stored in it. -/
def ThreadInterruptionInfo.new (waitManager : Option Waiter) : ThreadInterruptionInfo where
  cpuState := default
  cpuStateAddress := 0
  waitManager := waitManager
  type := .none
  handledIrq := 0
  handledSignal := 0

structure Thread where
  alive : Bool
  type : ThreadType
  priority : ThreadPriority
  /-- The process, named by its main thread. -/
  process : Pid
  waitManager : Option Waiter
  waitCount : Nat
  rounds : Nat
  /-- Where the state pushed by the last interrupt stands. -/
  cpuState : Nat
  interruptionInfo : Option ThreadInterruptionInfo

def Thread.new (type : ThreadType) (priority : ThreadPriority) (process : Pid) (cpuState : Nat) :
    Thread where
  alive := true
  type := type
  priority := priority
  process := process
  waitManager := none
  waitCount := 0
  rounds := 0
  cpuState := cpuState
  interruptionInfo := none

structure Scheduler where
  threads : Tid → Thread
  taskIdCounter : Tid
  waitQueue : List Tid
  runQueue : List Tid
  idleEntry : Option Tid
  currentEntry : Option Tid
  /-- The saved processor states on the kernel stacks. -/
  cpuStates : Nat → ProcessorState
  /-- The words on the user stacks of each process. -/
  userWords : Pid → Nat → Nat

namespace Scheduler

/-- The constructor of `Scheduler`, before any thread exists. -/
def new (cpuStates : Nat → ProcessorState) (userWords : Pid → Nat → Nat) : Scheduler where
  threads := fun _ => Thread.new .main .normal 0 0
  taskIdCounter := 0
  waitQueue := []
  runQueue := []
  idleEntry := none
  currentEntry := none
  cpuStates := cpuStates
  userWords := userWords

def modifyThread (s : Scheduler) (thread : Tid) (change : Thread → Thread) : Scheduler :=
  { s with threads := update s.threads thread (change (s.threads thread)) }

section Queues

variable (s : Scheduler) (thread : Tid)

def add (type : ThreadType) (priority : ThreadPriority) (process : Pid) (cpuState : Nat) :
    Scheduler :=
  let id := s.taskIdCounter
  let s := { s with
    threads := update s.threads id (Thread.new type priority process cpuState)
    taskIdCounter := id + 1 }
  match priority with
  | .idle => { s with idleEntry := some id }
  | .normal => { s with runQueue := id :: s.runQueue }

/-- `_removeFromQueue`: the queue without the entry of the thread, or `none` if
the thread has no entry in it. -/
def removeFromQueue (queue : List Tid) (thread : Tid) : Option (List Tid) :=
  if thread ∈ queue then some (queue.erase thread) else none

def moveToRunQueue : Scheduler :=
  match removeFromQueue s.waitQueue thread with
  | none => s
  | some queue => { s with waitQueue := queue, runQueue := thread :: s.runQueue }

def moveToWaitQueue : Scheduler :=
  match removeFromQueue s.runQueue thread with
  | none => s
  | some queue =>
    { s with
      runQueue := queue
      waitQueue := thread :: s.waitQueue
      currentEntry := if s.currentEntry = some thread then none else s.currentEntry }

def increaseWaitPriority : Scheduler :=
  match removeFromQueue s.waitQueue thread with
  | none => s
  | some queue => { s with waitQueue := thread :: queue }

/-- `_remove`, as far as the queues are concerned. -/
def remove : Scheduler :=
  match removeFromQueue s.runQueue thread with
  | some queue => { s with runQueue := queue }
  | none =>
    match removeFromQueue s.waitQueue thread with
    | some queue => { s with waitQueue := queue }
    | none => s

/-- `removeThreads`: every entry of the process, in the run queue first. -/
def removeThreads (process : Pid) : Scheduler :=
  let ofProcess := fun thread => decide ((s.threads thread).process = process)
  let s := (s.runQueue.filter ofProcess).foldl remove s
  (s.waitQueue.filter ofProcess).foldl remove s

def getTaskById (id : Tid) : Option Tid :=
  let wanted := fun thread => (s.threads thread).alive && decide (thread = id)
  (s.runQueue.find? wanted).or (s.waitQueue.find? wanted)

/-- The `next` field of an entry, which has to be in a queue or be the idle
entry. -/
def nextEntry : Option (Option Tid) :=
  if thread ∈ s.runQueue then some (following thread s.runQueue).head?
  else if thread ∈ s.waitQueue then some (following thread s.waitQueue).head?
  else if s.idleEntry = some thread then some none
  else none

end Queues

section Waiting

variable (s : Scheduler) (thread : Tid)

def wait (newWaitManager : Option Waiter) : Scheduler :=
  let s := if (s.threads thread).waitManager = none then s.moveToWaitQueue thread else s
  s.modifyThread thread fun thread => { thread with waitManager := newWaitManager }

def clearWaiter : Scheduler :=
  s.modifyThread thread fun thread => { thread with waitManager := none }

def unwait : Scheduler :=
  match (s.threads thread).waitManager with
  | none => s
  | some _ => (s.clearWaiter thread).moveToRunQueue thread

/-- `startPrepareInterruption`, together with what its two callers write into
the new structure; `none` if the thread is already being interrupted. -/
def startPrepareInterruption (type : ThreadInterruptionInfoType) (handledIrq : Nat)
    (handledSignal : Int) : Option Scheduler :=
  match (s.threads thread).interruptionInfo with
  | some _ => none
  | none =>
    some (s.modifyThread thread fun thread =>
      { thread with
        interruptionInfo := some
          { ThreadInterruptionInfo.new thread.waitManager with
            type := type
            handledIrq := handledIrq
            handledSignal := handledSignal } })

def finishPrepareInterruption (address callback : Nat) : Scheduler :=
  (s.clearWaiter thread).wait thread (some (.performInterruption address callback))

def enterIrqHandler (address irq callback : Nat) : Scheduler :=
  match s.startPrepareInterruption thread .irq irq 0 with
  | none => s
  | some s => s.finishPrepareInterruption thread address callback

def enterSignalHandler (address : Nat) (signal : Int) (callback : Nat) : Scheduler :=
  match s.startPrepareInterruption thread .signal 0 signal with
  | none => s
  | some s => s.finishPrepareInterruption thread address callback

def storeForInterruption (info : ThreadInterruptionInfo) : Scheduler :=
  s.modifyThread thread fun thread =>
    { thread with
      interruptionInfo := some
        { info with cpuState := s.cpuStates thread.cpuState, cpuStateAddress := thread.cpuState } }

/-- `WaiterPerformInterruption::checkWaiting`; it follows the pointer to the
interruption information. -/
def performInterruption (entry callback : Nat) : Option Scheduler :=
  match (s.threads thread).interruptionInfo with
  | none => none
  | some info =>
    let process := (s.threads thread).process
    let address := (s.threads thread).cpuState
    let s := s.storeForInterruption thread info
    let push := fun (stack : Nat × (Nat → Nat)) (word : Nat) =>
      (sub32 stack.1 4, update stack.2 (sub32 stack.1 4) word)
    let stack := ((s.cpuStates address).esp, s.userWords process)
    let stack :=
      match info.type with
      | .irq => push stack info.handledIrq
      | .signal => push stack (info.handledSignal % wordSize).toNat
      | .none => stack
    let stack := push stack callback
    some { s with
      cpuStates := update s.cpuStates address
        { s.cpuStates address with eip := entry, esp := stack.1 }
      userWords := update s.userWords process stack.2 }

/-- `restoreInterruptedState`; it follows the pointer to the interruption
information. -/
def restoreInterruptedState : Option Scheduler :=
  match (s.threads thread).interruptionInfo with
  | none => none
  | some info =>
    let s := s.wait thread info.waitManager
    let s := { s with
      cpuStates := update s.cpuStates info.cpuStateAddress info.cpuState }
    some (s.modifyThread thread fun thread =>
      { thread with cpuState := info.cpuStateAddress, interruptionInfo := none })

/-- The signal a page fault raises. -/
def sigsegv : Int := 4

structure SignalHandler where
  handler : Nat
  threadID : Tid
  callback : Nat

def handlingThread (handler : SignalHandler) : Option Tid :=
  if handler.threadID = thread then some thread else s.getTaskById handler.threadID

/-- `Thread::raiseSignal` with the handler that the process has registered for
the signal. -/
def raiseSignal (signal : Int) (handler : SignalHandler) : Scheduler :=
  if handler.handler ≠ 0 then
    match s.handlingThread thread handler with
    | none => s
    | some handling => s.enterSignalHandler handling handler.handler signal handler.callback
  else if signal = sigsegv then
    (s.modifyThread thread fun thread => { thread with alive := false }).modifyThread
      (s.threads thread).process fun main => { main with alive := false }
  else s

end Waiting

section Scheduling

/-- What the check of a waiter other than `performInterruption` answers: go on
waiting, go on waiting for another object, or stop. -/
inductive Check
  | wait
  | replace (address : Nat)
  | stop
  deriving DecidableEq

variable (s : Scheduler) (thread : Tid)

def checkAliveState : Bool × Scheduler :=
  if (s.threads thread).alive then (true, s)
  else if (s.threads thread).type = .main then
    (false, s.removeThreads (s.threads thread).process)
  else (false, s.remove thread)

def checkWaitingState (check : Check) : Option Scheduler :=
  match (s.threads thread).waitManager with
  | none => some s
  | some (.performInterruption entry callback) =>
    (s.performInterruption thread entry callback).map fun s =>
      (s.modifyThread thread fun thread => { thread with waitCount := 0 }).unwait thread
  | some (.object _) =>
    match check with
    | .wait =>
      some (s.modifyThread thread fun thread =>
        { thread with waitCount := wrap32 (thread.waitCount + 1) })
    | .replace address =>
      some ((s.wait thread (some (.object address))).modifyThread thread fun thread =>
        { thread with waitCount := wrap32 (thread.waitCount + 1) })
    | .stop =>
      some ((s.modifyThread thread fun thread => { thread with waitCount := 0 }).unwait thread)

/-- The loop of `_processWaitQueue` from the entry it stands on. -/
def processWaitQueueFrom (checks : Tid → Check) : Nat → Scheduler → Option Tid → Option Scheduler
  | _, s, none => some { s with currentEntry := none }
  | 0, _, some _ => none
  | fuel + 1, s, some thread =>
    let s := { s with currentEntry := some thread }
    match s.nextEntry thread with
    | none => none
    | some next =>
      match s.checkAliveState thread with
      | (false, s) => processWaitQueueFrom checks fuel s next
      | (true, s) =>
        match s.checkWaitingState thread (checks thread) with
        | none => none
        | some s => processWaitQueueFrom checks fuel s next

def processWaitQueue (checks : Tid → Check) : Option Scheduler :=
  processWaitQueueFrom checks s.waitQueue.length s s.waitQueue.head?

/-- The entry behind the current one, or the head of the run queue, or the idle
entry. -/
def nextCandidate : Option Tid :=
  match s.currentEntry with
  | none => s.runQueue.head?.or s.idleEntry
  | some thread =>
    match s.nextEntry thread with
    | none => none
    | some next => (next.or s.runQueue.head?).or s.idleEntry

/-- `_finishSwitch` and the count of the rounds. -/
def finishSwitch : Scheduler :=
  let address := (s.threads thread).cpuState
  { s.modifyThread thread fun thread => { thread with rounds := (thread.rounds + 1) % 2 ^ 64 } with
    cpuStates := update s.cpuStates address { s.cpuStates address with gs := 0x30 } }

/-- The loop of `schedule` that selects the next thread. -/
def selectNext : Nat → Scheduler → Option Scheduler
  | 0, _ => none
  | fuel + 1, s =>
    match s.nextCandidate with
    | none => none
    | some thread =>
      if (s.threads thread).waitManager = none then
        match { s with currentEntry := some thread }.checkAliveState thread with
        | (false, s) => selectNext fuel { s with currentEntry := none }
        | (true, s) => some (s.finishSwitch thread)
      else none

/-- `schedule`. The thread it returns is the one of the current entry
afterwards. -/
def schedule (checks : Tid → Check) : Option Scheduler :=
  match s.processWaitQueue checks with
  | none => none
  | some processed =>
    selectNext (processed.runQueue.length + 1) { processed with currentEntry := s.currentEntry }

/-- `save`: an interrupt pushed a state at an address. -/
def save (address : Nat) (state : ProcessorState) (checks : Tid → Check) : Option Scheduler :=
  let s := { s with cpuStates := update s.cpuStates address state }
  match s.currentEntry with
  | some thread => some (s.modifyThread thread fun thread => { thread with cpuState := address })
  | none => s.schedule checks

end Scheduling

end Scheduler

end Kernel
