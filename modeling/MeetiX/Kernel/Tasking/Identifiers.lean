import MeetiX.Kernel.FileSystem.FsNode
import MeetiX.Kernel.Tasking.Scheduler

/-! The identifiers of threads, on all cores. A thread gets a first one when it is prepared, from
the path of its process or from the main thread, and may register another one; a lookup goes
through the queues of all schedulers. The terminators that `setupInitialIdentifier` writes behind
its two buffers are left out. -/
namespace Kernel.Identifiers

/-- The fields of `Thread` that are read here. -/
structure NamedThread where
  type : ThreadType
  priority : ThreadPriority
  /-- The process, named by its main thread. -/
  process : Pid
  alive : Bool
  identifier : Option CString
  deriving DecidableEq

structure Queues where
  runQueue : List Tid
  waitQueue : List Tid
  deriving DecidableEq

/-- `Tasking`. A core without a scheduler has the null pointer for it. -/
structure Tasking where
  threads : Tid → Option NamedThread
  sourcePath : Pid → Option CString
  schedulers : List (Option Queues)
  taskIdCounter : Tid

/-- `String::basename`. The slashes at the end of the path, which it cuts off in place,
would be cut off again by the next call. -/
def basename (pathname : Option CString) : CString :=
  match pathname with
  | none => [dot]
  | some [] => [dot]
  | some path =>
    if path = [dot] ∨ path = [slash] ∨ path = [dot, dot] then path
    else ((path.reverse.dropWhile (· == slash)).takeWhile (· != slash)).reverse

/-- `Thread::setIdentifier`. A sub thread keeps what it has in front. -/
def NamedThread.setIdentifier (thread : NamedThread) (newIdentifier : Option CString) : NamedThread :=
  match newIdentifier with
  | none => thread
  | some new =>
    match thread.type, thread.identifier with
    | .sub, some old => { thread with identifier := some (old ++ new) }
    | _, _ => { thread with identifier := some new }

/-- The text `::`. -/
def scopeMark : CString := [58, 58]

/-- The name that `setupInitialIdentifier` sets, if it sets one: for a main thread the name
of the file without its extension, for a sub thread that of the main thread. Where the
main thread has none, it is read through the null pointer. -/
def initialName (type : ThreadType) (path mainName : Option CString) (atNull : CString) :
    Option CString :=
  match type with
  | .sub => some (mainName.getD atNull ++ scopeMark)
  | _ =>
    let name := basename path
    if dot ∈ name then
      let purename := name.takeWhile (· != dot)
      if purename = [] then none else some purename
    else some name

namespace Tasking

variable (s : Tasking)

/-- The threads in the queues, in the order in which lookups come to them. -/
def queued : List Tid :=
  s.schedulers.flatMap fun scheduler =>
    match scheduler with
    | none => []
    | some queues => queues.runQueue ++ queues.waitQueue

/-- The test of the lookup loops. -/
def hasIdentifier (identifier : CString) (thread : Tid) : Bool :=
  match s.threads thread with
  | none => false
  | some named => named.alive && named.identifier == some identifier

/-- `Tasking::getTaskByIdentifier`, with the loops of the schedulers. -/
def getTaskByIdentifier (identifier : CString) : Option Tid :=
  s.schedulers.findSome? fun scheduler =>
    match scheduler with
    | none => none
    | some queues =>
      (queues.runQueue.find? (s.hasIdentifier identifier)).or
        (queues.waitQueue.find? (s.hasIdentifier identifier))

def modifyThread (thread : Tid) (change : NamedThread → NamedThread) : Tasking :=
  { s with threads := Function.update s.threads thread ((s.threads thread).map change) }

variable (task : Tid)

def registerTaskForIdentifier (newIdentifier : CString) : Bool × Tasking :=
  match s.getTaskByIdentifier newIdentifier with
  | some _ => (false, s)
  | none => (true, s.modifyThread task fun thread => thread.setIdentifier (some newIdentifier))

def setupInitialIdentifier (atNull : CString) : Tasking :=
  s.modifyThread task fun thread =>
    thread.setIdentifier (initialName thread.type (s.sourcePath thread.process)
      ((s.threads thread.process).bind NamedThread.identifier) atNull)

def Queues.load (queues : Queues) : Nat := queues.runQueue.length + queues.waitQueue.length

/-- The loop of `Tasking::addTask` over the cores, with the best core so far and its load. -/
def lowest : Nat → Option (Nat × Nat) → List (Option Queues) → Option (Nat × Nat)
  | _, best, [] => best
  | core, best, none :: rest => lowest (core + 1) best rest
  | core, best, some queues :: rest =>
    let better := match best with
      | none => true
      | some (_, lowestLoad) => Queues.load queues < lowestLoad
    lowest (core + 1) (if better then some (core, Queues.load queues) else best) rest

/-- `Scheduler::add`. The idle thread does not go into a queue. -/
def add (core : Nat) (queues : Queues) (task : Tid) : Tasking :=
  if (s.threads task).any fun thread => thread.priority = .idle then s
  else { s with
    schedulers := s.schedulers.set core (some { queues with runQueue := task :: queues.runQueue }) }

/-- `Tasking::addTask`, on the current core where that is enforced. Without a scheduler
there is a panic. -/
def addTask (enforced : Option Nat) : Option Tasking := do
  let core ← enforced.or ((lowest 0 none s.schedulers).map Prod.fst)
  let scheduler ← s.schedulers[core]?
  let queues ← scheduler
  some (s.add core queues task)

/-- The constructor of `Thread`, with the process it is linked to. -/
def newThread (type : ThreadType) (priority : ThreadPriority) (process : Pid) : Tasking :=
  { s with
    threads := Function.update s.threads s.taskIdCounter (some ⟨type, priority, process, true, none⟩)
    taskIdCounter := s.taskIdCounter + 1 }

def setPath (process : Pid) (path : CString) : Tasking :=
  { s with sourcePath := Function.update s.sourcePath process (some path) }

/-- `Elf32Loader::spawnFromRamdisk` for a file that is there. -/
def spawnFromRamdisk (path : CString) (priority : ThreadPriority)
    (enforced : Option Nat) : Option Tasking :=
  let task := s.taskIdCounter
  (((s.newThread .main priority task).setPath task path).setupInitialIdentifier task []).addTask
    task enforced

/-- The call `attachCreatedProcess` with the pointer to a thread that exists. -/
def attachCreatedProcess : Option Tasking :=
  if (s.threads task).isSome then (s.setupInitialIdentifier task []).addTask task none else none

/-- The call `createThread` of a thread of some process, which has a main thread. -/
def createThread (process : Pid) (threadName : Option CString) (atNull : CString) :
    Option Tasking :=
  if (s.threads process).isSome then
    let task := s.taskIdCounter
    let s := (s.newThread .sub .normal process).setupInitialIdentifier task atNull
    (s.modifyThread task fun thread => thread.setIdentifier threadName).addTask task none
  else none

def remove (removed : Tid → Bool) : Tasking :=
  { s with
    threads := fun thread => if removed thread then none else s.threads thread
    schedulers := s.schedulers.map fun scheduler => scheduler.map fun queues =>
      ⟨queues.runQueue.filter fun thread => !removed thread,
        queues.waitQueue.filter fun thread => !removed thread⟩ }

/-- `_checkAliveState` for a thread that is not alive: with a main thread all threads of its
process go. -/
def removeDead : Option Tasking := do
  let thread ← s.threads task
  if thread.alive then none
  else if thread.type = .main then
    some (s.remove fun other => other ∈ s.queued ∧
      ((s.threads other).any fun named => named.process = thread.process))
  else some (s.remove fun other => other = task)

/-- Before the first thread. Some of the cores have schedulers. -/
def initial (cores : List Bool) : Tasking where
  threads := fun _ => none
  sourcePath := fun _ => none
  schedulers := cores.map fun started => if started then some ⟨[], []⟩ else none
  taskIdCounter := 0

end Tasking

inductive Event
  | spawnFromRamdisk (path : CString) (priority : ThreadPriority) (enforced : Option Nat)
  /-- The main thread of an empty process, which is not scheduled yet. -/
  | createEmptyProcess
  | configureProcess (process : Pid) (path : CString)
  | attachCreatedProcess (task : Tid)
  | createThread (process : Pid) (threadName : Option CString) (atNull : CString)
  | fork
  | createProcessVm86
  | register (task : Tid) (newIdentifier : CString)
  | kill (task : Tid)
  | removeDead (task : Tid)
  /-- Schedulers move threads between and inside their queues. -/
  | reschedule (schedulers : List (Option Queues))
  deriving DecidableEq

open Tasking in
def execute (s : Tasking) : Event → Option Tasking
  | .spawnFromRamdisk path priority enforced => s.spawnFromRamdisk path priority enforced
  | .createEmptyProcess => some (s.newThread .main .normal s.taskIdCounter)
  | .configureProcess process path => some (s.setPath process path)
  | .attachCreatedProcess task => s.attachCreatedProcess task
  | .createThread process threadName atNull => s.createThread process threadName atNull
  | .fork => (s.newThread .main .normal s.taskIdCounter).addTask s.taskIdCounter none
  | .createProcessVm86 => (s.newThread .vm86 .normal s.taskIdCounter).addTask s.taskIdCounter none
  | .register task newIdentifier => some (s.registerTaskForIdentifier task newIdentifier).2
  | .kill task => some (s.modifyThread task fun thread => { thread with alive := false })
  | .removeDead task => s.removeDead task
  | .reschedule schedulers =>
    if (queued { s with schedulers := schedulers }).Perm s.queued then
      some { s with schedulers := schedulers }
    else none

end Kernel.Identifiers
