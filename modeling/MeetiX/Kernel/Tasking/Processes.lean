import Mathlib.Algebra.Order.Group.Int
import MeetiX.Kernel.Types

/-! Threads, their processes and the security levels of these: what `ThreadManager` and the
spawning calls of `SyscallHandlerSpawning` do to them. A pointer to a thread is its identifier.
The fields of a deleted thread keep their last values for the histories; no call reads them.
Whether the stacks of a new thread could be created is given from outside. -/
namespace Kernel

open Function

/-- `SecurityLevel` is a byte. The smaller it is, the more its process may do. -/
abbrev SecurityLevel := UInt8

def securityLevelKernel : SecurityLevel := 0

def securityLevelDriver : SecurityLevel := 1

def securityLevelApplication : SecurityLevel := 2

inductive TaskState
  /-- Never created, or deleted. -/
  | absent
  /-- Created but in the list of no scheduler. -/
  | created
  | scheduled
  deriving DecidableEq

structure Tasks where
  state : Tid → TaskState
  /-- The process, named by its main thread. -/
  process : Tid → Pid
  securityLevel : Pid → SecurityLevel
  taskIdCounter : Tid

namespace Tasks

variable (s : Tasks)

def levelOf (thread : Tid) : SecurityLevel :=
  s.securityLevel (s.process thread)

/-- The constructor of `Thread`, for a thread of the given process. -/
def newThread (process : Pid) : Tasks :=
  { s with
    state := update s.state s.taskIdCounter .created
    process := update s.process s.taskIdCounter process
    taskIdCounter := s.taskIdCounter + 1 }

def newProcess (level : SecurityLevel) : Tasks :=
  { s.newThread s.taskIdCounter with
    securityLevel := update s.securityLevel s.taskIdCounter level }

def addTask (thread : Tid) : Tasks :=
  { s with state := update s.state thread .scheduled }

/-- What `ThreadManager::deleteTask` does to the thread. -/
def deleteTask (thread : Tid) : Tasks :=
  { s with state := update s.state thread .absent }

def createProcess (level : SecurityLevel) (hasStacks : Bool) : Option Tid × Tasks :=
  if hasStacks then (some s.taskIdCounter, s.newProcess level) else (none, s)

def createThread (caller : Tid) (hasStacks : Bool) : Tasks :=
  if hasStacks then (s.newThread (s.process caller)).addTask s.taskIdCounter else s

/-- The call `fork`. Only main threads can fork, and the new process gets the
level of its parent. -/
def fork (caller : Tid) : Tasks :=
  if caller = s.process caller then (s.newProcess (s.levelOf caller)).addTask s.taskIdCounter
  else s

/-- The call `createEmptyProcess`, for processes at kernel level only. The level
of the new process is the one that is asked for. -/
def createEmptyProcess (caller : Tid) (level : SecurityLevel) (hasStacks : Bool) :
    Option Tid × Tasks :=
  if s.levelOf caller = securityLevelKernel then s.createProcess level hasStacks else (none, s)

/-- The call `getCreatedProcessId`. Below kernel level the answer is not set. -/
def getCreatedProcessId (caller object : Tid) (unset : Pid) : Pid :=
  if s.levelOf caller = securityLevelKernel then object else unset

/-- The call `attachCreatedProcess`. It has no result for a deleted thread. -/
def attachCreatedProcess (caller object : Tid) : Option Tasks :=
  if s.levelOf caller = securityLevelKernel then
    if s.state object = .absent then none else some (s.addTask object)
  else some s

/-- The call `ramdiskSpawn`. Whether the ramdisk has a valid binary at the path is
given from outside. -/
def ramdiskSpawn (caller : Tid) (level : SecurityLevel) (valid hasStacks : Bool) : Tasks :=
  if s.levelOf caller = securityLevelKernel ∧ valid ∧ hasStacks then
    (s.newProcess level).addTask s.taskIdCounter
  else s

/-- The call `getPidForTid`. For a thread that no scheduler has, it reads through
the null pointer, where it finds some number. -/
def getPidForTid (thread : Tid) (atNull : Pid) : Pid :=
  if s.state thread = .scheduled then s.process thread else atNull

structure Valid : Prop where
  thread_lt : ∀ thread, s.state thread ≠ .absent → thread < s.taskIdCounter
  process_lt : ∀ thread < s.taskIdCounter, s.process thread < s.taskIdCounter

/-- A call may add threads and processes; those that exist keep their process and
their level. -/
structure Grows (s t : Tasks) : Prop where
  valid : t.Valid
  counter_le : s.taskIdCounter ≤ t.taskIdCounter
  process_eq : ∀ thread < s.taskIdCounter, t.process thread = s.process thread
  securityLevel_eq : ∀ process < s.taskIdCounter, t.securityLevel process = s.securityLevel process

section Growth

variable {s t u : Tasks} {caller thread object : Tid}

theorem Grows.refl (h : s.Valid) : Grows s s :=
  ⟨h, le_rfl, fun _ _ => rfl, fun _ _ => rfl⟩

theorem Grows.trans (first : Grows s t) (second : Grows t u) : Grows s u where
  valid := second.valid
  counter_le := first.counter_le.trans second.counter_le
  process_eq thread hThread :=
    (second.process_eq thread (hThread.trans_le first.counter_le)).trans
      (first.process_eq thread hThread)
  securityLevel_eq process hProcess :=
    (second.securityLevel_eq process (hProcess.trans_le first.counter_le)).trans
      (first.securityLevel_eq process hProcess)

theorem Grows.levelOf_eq (h : Grows s t) (hValid : s.Valid)
    (hThread : thread < s.taskIdCounter) : t.levelOf thread = s.levelOf thread := by
  unfold levelOf
  rw [h.process_eq thread hThread]
  exact h.securityLevel_eq _ (hValid.process_lt thread hThread)

theorem newThread_grows (h : s.Valid) {process : Pid} (hProcess : process ≤ s.taskIdCounter) :
    Grows s (s.newThread process) where
  valid := by
    constructor
    · intro thread hState
      show thread < s.taskIdCounter + 1
      by_cases hNew : thread = s.taskIdCounter
      · lia
      · have hOld : s.state thread ≠ .absent := by simpa [newThread, hNew] using hState
        have hLt := h.thread_lt thread hOld
        lia
    · intro thread hThread
      change thread < s.taskIdCounter + 1 at hThread
      show update s.process s.taskIdCounter process thread < s.taskIdCounter + 1
      by_cases hNew : thread = s.taskIdCounter
      · subst hNew
        rw [update_self]
        lia
      · rw [update_of_ne hNew]
        have hLt := h.process_lt thread (by lia)
        lia
  counter_le := by
    show s.taskIdCounter ≤ s.taskIdCounter + 1
    lia
  process_eq thread hThread := update_of_ne (ne_of_lt hThread) _ _
  securityLevel_eq _ _ := rfl

theorem newProcess_grows (h : s.Valid) (level : SecurityLevel) : Grows s (s.newProcess level) :=
  have hThread := newThread_grows h (le_refl s.taskIdCounter)
  { valid := ⟨hThread.valid.thread_lt, hThread.valid.process_lt⟩
    counter_le := hThread.counter_le
    process_eq := hThread.process_eq
    securityLevel_eq := fun _ hProcess => update_of_ne (ne_of_lt hProcess) _ _ }

theorem addTask_grows (h : s.Valid) (hThread : thread < s.taskIdCounter) :
    Grows s (s.addTask thread) where
  valid := by
    refine ⟨fun other hState => ?_, h.process_lt⟩
    by_cases hOther : other = thread
    · exact hOther ▸ hThread
    · exact h.thread_lt other (by simpa [addTask, hOther] using hState)
  counter_le := le_rfl
  process_eq _ _ := rfl
  securityLevel_eq _ _ := rfl

theorem deleteTask_grows (h : s.Valid) (thread : Tid) : Grows s (s.deleteTask thread) where
  valid := by
    refine ⟨fun other hState => ?_, h.process_lt⟩
    by_cases hOther : other = thread
    · simp [deleteTask, hOther] at hState
    · exact h.thread_lt other (by simpa [deleteTask, hOther] using hState)
  counter_le := le_rfl
  process_eq _ _ := rfl
  securityLevel_eq _ _ := rfl

theorem Grows.addNew (h : Grows s t) (hCounter : s.taskIdCounter < t.taskIdCounter) :
    Grows s (t.addTask s.taskIdCounter) :=
  h.trans (addTask_grows h.valid hCounter)

theorem createProcess_grows (h : s.Valid) (level : SecurityLevel) (hasStacks : Bool) :
    Grows s (s.createProcess level hasStacks).2 := by
  cases hasStacks with
  | false => exact Grows.refl h
  | true => exact newProcess_grows h level

theorem createThread_grows (h : s.Valid) (hCaller : caller < s.taskIdCounter)
    (hasStacks : Bool) : Grows s (s.createThread caller hasStacks) := by
  cases hasStacks with
  | false => exact Grows.refl h
  | true => exact (newThread_grows h (h.process_lt caller hCaller).le).addNew (Int.lt_succ _)

theorem fork_grows (h : s.Valid) (caller : Tid) : Grows s (s.fork caller) := by
  unfold fork
  split
  · exact (newProcess_grows h _).addNew (Int.lt_succ _)
  · exact Grows.refl h

theorem createEmptyProcess_grows (h : s.Valid) (caller : Tid) (level : SecurityLevel)
    (hasStacks : Bool) : Grows s (s.createEmptyProcess caller level hasStacks).2 := by
  unfold createEmptyProcess
  split
  · exact createProcess_grows h level hasStacks
  · exact Grows.refl h

/-- A created process has exactly the level that was asked for. -/
theorem createEmptyProcess_spec {level : SecurityLevel} {hasStacks : Bool}
    (h : (s.createEmptyProcess caller level hasStacks).1 = some object) :
    object = s.taskIdCounter ∧ s.levelOf caller = securityLevelKernel ∧
      (s.createEmptyProcess caller level hasStacks).2 = s.newProcess level := by
  unfold createEmptyProcess at h ⊢
  split at h
  · rename_i hLevel
    cases hasStacks with
    | false => simp [createProcess] at h
    | true =>
      simp only [createProcess, if_true, Option.some.injEq] at h
      exact ⟨h.symm, hLevel, by simp [createProcess, hLevel]⟩
  · simp at h

theorem attachCreatedProcess_grows (h : s.Valid)
    (hAttach : s.attachCreatedProcess caller object = some t) : Grows s t := by
  unfold attachCreatedProcess at hAttach
  split at hAttach
  · split at hAttach
    · cases hAttach
    · rename_i hState
      cases hAttach
      exact addTask_grows h (h.thread_lt object hState)
  · cases hAttach
    exact Grows.refl h

theorem ramdiskSpawn_grows (h : s.Valid) (caller : Tid) (level : SecurityLevel)
    (valid hasStacks : Bool) : Grows s (s.ramdiskSpawn caller level valid hasStacks) := by
  unfold ramdiskSpawn
  split
  · exact (newProcess_grows h level).addNew (Int.lt_succ _)
  · exact Grows.refl h

end Growth

end Tasks

end Kernel
