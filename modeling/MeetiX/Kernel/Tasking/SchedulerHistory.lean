import MeetiX.Base.Run
import MeetiX.Kernel.Tasking.SchedulerQueues

/-! Everything that happens on the scheduler of a core, in any order: threads are created, block,
are interrupted, return from their handlers, die, and are scheduled. Other cores act on this
scheduler under the kernel's one lock, so what they do are further events between two calls of
`schedule`. -/
namespace Kernel.Scheduler

open Base Function List

inductive Event
  | add (type : ThreadType) (priority : ThreadPriority) (process : Pid) (cpuState : Nat)
  /-- An interrupt pushes the state of the processor. -/
  | save (address : Nat) (state : ProcessorState) (checks : Tid → Check)
  | schedule (checks : Tid → Check)
  /-- The running thread waits for an object. -/
  | wait (address : Nat)
  /-- A request for which a thread has registered a handler. -/
  | irq (threadID : Tid) (address irq callback : Nat)
  /-- A signal for a thread, with the handler registered in its process. -/
  | raiseSignal (target : Tid) (signal : Int) (handler : SignalHandler)
  /-- The running thread has finished its handler. -/
  | restoreInterruptedState
  /-- A thread is marked as dead. -/
  | kill (thread : Tid)
  | increaseWaitPriority (thread : Tid)
  /-- A process writes a word of its own memory. -/
  | store (process : Pid) (address word : Nat)

variable (s : Scheduler)

/-- The thread whose system call is handled. The idle thread makes none. -/
def running : Option Tid :=
  s.currentEntry.filter fun thread => decide (thread ∈ s.runQueue)

/-- The state after an event. Each core gets its idle thread once, and a signal
is raised for a thread that is in a queue. -/
def execute : Event → Option Scheduler
  | .add type priority process cpuState =>
    if priority = .idle ∧ s.idleEntry ≠ none then none
    else some (s.add type priority process cpuState)
  | .save address state checks => s.save address state checks
  | .schedule checks => s.schedule checks
  | .wait address => s.running.map fun thread => s.wait thread (some (.object address))
  | .irq threadID address irq callback =>
    match s.getTaskById threadID with
    | none => some s
    | some thread => some (s.enterIrqHandler thread address irq callback)
  | .raiseSignal target signal handler =>
    if target ∈ s.runQueue ∨ target ∈ s.waitQueue then some (s.raiseSignal target signal handler)
    else none
  | .restoreInterruptedState => s.running.bind s.restoreInterruptedState
  | .kill thread => some (s.modifyThread thread fun thread => { thread with alive := false })
  | .increaseWaitPriority thread => some (s.increaseWaitPriority thread)
  | .store process address word =>
    some { s with
      userWords := update s.userWords process
        (update (s.userWords process) address word) }

def Step (event : Event) (t : Scheduler) : Prop :=
  s.execute event = some t

def Event.Schedules : Event → Prop
  | .schedule _ => True
  | .save _ _ _ => s.currentEntry = none
  | _ => False

/-- The event may put this thread into the wait queue. -/
def Event.Blocks (thread : Tid) : Event → Prop
  | .wait _ => s.currentEntry = some thread
  | .restoreInterruptedState => s.currentEntry = some thread
  | .irq threadID _ _ _ => thread = threadID
  | .raiseSignal _ _ handler => thread = handler.threadID
  | _ => False

/-- The request that an event makes of this thread. -/
def Event.request (thread : Tid) : Event → Option Request
  | .irq threadID address number callback =>
    if s.getTaskById threadID = some thread then some ⟨.irq, number, 0, address, callback⟩ else none
  | .raiseSignal target signal handler =>
    if handler.handler ≠ 0 ∧ s.handlingThread target handler = some thread then
      some ⟨.signal, 0, signal, handler.handler, handler.callback⟩
    else none
  | _ => none

def Event.Marks (event : Event) (s : Scheduler) (thread : Tid) : Mark → Prop
  | .other => True
  | .perform => event.Schedules s
  | .interrupt request => event.request s thread = some request
  | .restore => event = .restoreInterruptedState ∧ s.currentEntry = some thread

structure Valid : Prop where
  queues : s.Queues
  current : ∀ thread, s.currentEntry = some thread →
    thread ∈ s.runQueue ∨ s.idleEntry = some thread

section Blocked

variable {s t : Scheduler} {thread : Tid} {waiter : Option Waiter}

/-- The thread now has this waiter and is not in the run queue; if it was there
it is the first of the wait queue. Nothing else has changed. -/
structure Blocked (s t : Scheduler) (thread : Tid) (waiter : Option Waiter) : Prop where
  run : t.runQueue = s.runQueue.erase thread
  wait : t.waitQueue = if thread ∈ s.runQueue then thread :: s.waitQueue else s.waitQueue
  current : t.currentEntry =
    if thread ∈ s.runQueue ∧ s.currentEntry = some thread then none else s.currentEntry
  idle : t.idleEntry = s.idleEntry
  counter : t.taskIdCounter = s.taskIdCounter
  waiter : (t.threads thread).waitManager = waiter
  others : ∀ other, other ≠ thread → t.threads other = s.threads other

theorem moveToWaitQueue_of_mem (h : thread ∈ s.runQueue) : s.moveToWaitQueue thread =
      { s with
        runQueue := s.runQueue.erase thread
        waitQueue := thread :: s.waitQueue
        currentEntry := if s.currentEntry = some thread then none else s.currentEntry } := by
  simp [moveToWaitQueue, removeFromQueue, h]

theorem moveToWaitQueue_of_not_mem (h : thread ∉ s.runQueue) : s.moveToWaitQueue thread = s := by
  simp [moveToWaitQueue, removeFromQueue, h]

/-- The queues stay in order when a thread blocks. -/
theorem Queues.blocked (h : s.Queues) (hBlocked : Blocked s t thread waiter) : t.Queues := by
  have hErase : (s.runQueue.erase thread).Sublist s.runQueue := erase_sublist
  have hWaiting : ∀ other ∈ t.waitQueue,
      other ∈ s.waitQueue ∨ other = thread ∧ thread ∈ s.runQueue := by
    intro other hOther
    rw [hBlocked.wait] at hOther
    split at hOther
    · next hMem =>
        rcases mem_cons.mp hOther with rfl | hOther
        · exact Or.inr ⟨rfl, hMem⟩
        · exact Or.inl hOther
    · exact Or.inl hOther
  refine h.within ?_ ?_ ?_ ?_ hBlocked.idle hBlocked.counter ?_
  · rw [hBlocked.run]
    exact h.run_nodup.sublist hErase
  · rw [hBlocked.wait]
    split
    · next hMem => exact nodup_cons.mpr ⟨h.apart thread hMem, h.wait_nodup⟩
    · exact h.wait_nodup
  · intro other hOther hIn
    rw [hBlocked.run] at hOther
    rcases hWaiting other hIn with hIn | ⟨rfl, -⟩
    · exact h.apart other (hErase.subset hOther) hIn
    · exact h.run_nodup.not_mem_erase hOther
  · rintro other (hOther | hIn)
    · rw [hBlocked.run] at hOther
      exact .inl (hErase.subset hOther)
    · rcases hWaiting other hIn with hIn | ⟨rfl, hMem⟩
      · exact .inr hIn
      · exact .inl hMem
  · intro other hOther
    rw [hBlocked.run] at hOther
    have hNe : other ≠ thread := by
      rintro rfl
      exact h.run_nodup.not_mem_erase hOther
    rw [hBlocked.others other hNe]
    exact h.runnable other (hErase.subset hOther)

theorem Valid.blocked (h : s.Valid) (hBlocked : Blocked s t thread waiter) : t.Valid where
  queues := h.queues.blocked hBlocked
  current := by
    intro other hCurrent
    rw [hBlocked.current] at hCurrent
    split at hCurrent
    · cases hCurrent
    · next hNot =>
        rw [hBlocked.run, hBlocked.idle]
        rcases h.current other hCurrent with hMem | hIdle
        · have hNe : other ≠ thread := by
            rintro rfl
            exact hNot ⟨hMem, hCurrent⟩
          exact Or.inl ((mem_erase_of_ne hNe).mpr hMem)
        · exact Or.inr hIdle

theorem Blocked.modify (h : Blocked s t thread waiter) {u : Scheduler}
    (hRun : u.runQueue = t.runQueue) (hWait : u.waitQueue = t.waitQueue)
    (hCurrent : u.currentEntry = t.currentEntry) (hIdle : u.idleEntry = t.idleEntry)
    (hCounter : u.taskIdCounter = t.taskIdCounter)
    (hWaiter : (u.threads thread).waitManager = (t.threads thread).waitManager)
    (hOthers : ∀ other, other ≠ thread → u.threads other = t.threads other) :
    Blocked s u thread waiter where
  run := hRun.trans h.run
  wait := hWait.trans h.wait
  current := hCurrent.trans h.current
  idle := hIdle.trans h.idle
  counter := hCounter.trans h.counter
  waiter := hWaiter.trans h.waiter
  others other hNe := (hOthers other hNe).trans (h.others other hNe)

/-- Whether the thread is moved or is already waiting, `wait` blocks it. -/
theorem wait_blocked (h : s.Queues) (thread : Tid) (waiter : Option Waiter) :
    Blocked s (s.wait thread waiter) thread waiter := by
  unfold wait
  by_cases hMem : thread ∈ s.runQueue
  · rw [if_pos (h.runnable thread hMem), moveToWaitQueue_of_mem hMem]
    exact
      { run := rfl
        wait := (if_pos hMem).symm
        current := by simp [hMem]
        idle := rfl
        counter := rfl
        waiter := by simp
        others := fun _ hNe => threads_modifyThread_of_ne _ _ _ hNe }
  · have hSame : (if (s.threads thread).waitManager = none then s.moveToWaitQueue thread else s) =
        s := by
      rw [moveToWaitQueue_of_not_mem hMem, ite_self]
    rw [hSame]
    exact
      { run := (erase_of_not_mem hMem).symm
        wait := (if_neg hMem).symm
        current := by simp [hMem]
        idle := rfl
        counter := rfl
        waiter := by simp
        others := fun _ hNe => threads_modifyThread_of_ne _ _ _ hNe }

theorem threads_wait (s : Scheduler) (thread : Tid) (waiter : Option Waiter) (other : Tid) :
    (s.wait thread waiter).threads other =
      if other = thread then { s.threads thread with waitManager := waiter } else s.threads other := by
  unfold wait
  split
  · rw [threads_modifyThread, threads_moveToWaitQueue]
  · rw [threads_modifyThread]

theorem restoreInterruptedState_spec (h : s.Queues)
    (hRestore : s.restoreInterruptedState thread = some t) :
    ∃ info, (s.threads thread).interruptionInfo = some info ∧
      Blocked s t thread info.waitManager ∧ (t.threads thread).interruptionInfo = none := by
  unfold restoreInterruptedState at hRestore
  cases hInfo : (s.threads thread).interruptionInfo with
  | none =>
    rw [hInfo] at hRestore
    cases hRestore
  | some info =>
    rw [hInfo] at hRestore
    cases hRestore
    refine ⟨info, rfl, (wait_blocked h thread info.waitManager).modify rfl rfl rfl rfl rfl
      (by rw [threads_modifyThread_self]) fun _ hNe => threads_modifyThread_of_ne _ _ _ hNe, ?_⟩
    rw [threads_modifyThread_self]

/-- A handler is entered only if the thread is not being interrupted yet. Its waiter is put aside,
and it is blocked on the one that performs the interruption. -/
theorem enterHandler_cases (h : s.Queues) (thread : Tid) (type : ThreadInterruptionInfoType)
    (irq address callback : Nat) (signal : Int) :
    let t := match s.startPrepareInterruption thread type irq signal with
      | none => s
      | some started => started.finishPrepareInterruption thread address callback
    (s.threads thread).interruptionInfo ≠ none ∧ t = s ∨
      Blocked s t thread (some (.performInterruption address callback)) ∧
        Change (s.threads thread) (.interrupt ⟨type, irq, signal, address, callback⟩)
          (t.threads thread) := by
  unfold startPrepareInterruption
  cases hInfo : (s.threads thread).interruptionInfo with
  | some info => exact .inl ⟨Option.some_ne_none _, rfl⟩
  | none =>
    let prepared := (s.modifyThread thread fun thread =>
      { thread with
        interruptionInfo := some
          { ThreadInterruptionInfo.new thread.waitManager with
            type := type
            handledIrq := irq
            handledSignal := signal } }).clearWaiter thread
    have hOthers : ∀ other, other ≠ thread → prepared.threads other = s.threads other := by
      intro other hNe
      exact (threads_modifyThread_of_ne _ _ _ hNe).trans (threads_modifyThread_of_ne _ _ _ hNe)
    have hPrepared : prepared.Queues := by
      refine h.withThreads rfl rfl rfl rfl fun other _ hNone => ?_
      by_cases hOther : other = thread
      · subst hOther
        exact waitManager_clearWaiter _ _
      · rwa [hOthers other hOther]
    have hBlocked := wait_blocked hPrepared thread (some (.performInterruption address callback))
    refine .inr ⟨⟨hBlocked.run, hBlocked.wait, hBlocked.current, hBlocked.idle, hBlocked.counter,
      hBlocked.waiter, fun other hNe => (hBlocked.others other hNe).trans (hOthers other hNe)⟩,
      .interrupt _ hInfo hBlocked.waiter ?_⟩
    dsimp only [finishPrepareInterruption]
    rw [threads_wait, if_pos rfl, clearWaiter, threads_modifyThread_self, threads_modifyThread_self]
    rfl

end Blocked

section Inversion

variable {s t : Scheduler} {thread target : Tid} {event : Event}

theorem getTaskById_eq_some {id : Tid} (h : s.getTaskById id = some thread) :
    thread = id ∧ (s.threads thread).alive = true ∧
      (thread ∈ s.runQueue ∨ thread ∈ s.waitQueue) := by
  rcases Option.or_eq_some_iff.mp h with hRun | ⟨-, hWait⟩
  · have hWanted := find?_some hRun
    simp only [Bool.and_eq_true, decide_eq_true_eq] at hWanted
    exact ⟨hWanted.2, hWanted.1, Or.inl (mem_of_find?_eq_some hRun)⟩
  · have hWanted := find?_some hWait
    simp only [Bool.and_eq_true, decide_eq_true_eq] at hWanted
    exact ⟨hWanted.2, hWanted.1, Or.inr (mem_of_find?_eq_some hWait)⟩

theorem handlingThread_eq_some {handling : Tid} {handler : SignalHandler}
    (hTarget : target ∈ s.runQueue ∨ target ∈ s.waitQueue)
    (h : s.handlingThread target handler = some handling) :
    handling = handler.threadID ∧ (handling ∈ s.runQueue ∨ handling ∈ s.waitQueue) := by
  unfold handlingThread at h
  split at h
  · next hSelf =>
      cases h
      exact ⟨hSelf.symm, hTarget⟩
  · obtain ⟨hId, -, hIn⟩ := getTaskById_eq_some h
    exact ⟨hId, hIn⟩

theorem running_eq_some :
    s.running = some thread ↔ s.currentEntry = some thread ∧ thread ∈ s.runQueue := by
  simp [running]

/-- What is left of the changes: the threads keep their places and their
waiters, only the order of the wait queue may differ. -/
structure Quiet (s t : Scheduler) : Prop where
  run : t.runQueue = s.runQueue
  wait : t.waitQueue.Perm s.waitQueue
  current : t.currentEntry = s.currentEntry
  idle : t.idleEntry = s.idleEntry
  counter : t.taskIdCounter = s.taskIdCounter
  waiter : ∀ thread, (t.threads thread).waitManager = (s.threads thread).waitManager
  info : ∀ thread, (t.threads thread).interruptionInfo = (s.threads thread).interruptionInfo

theorem Quiet.refl (s : Scheduler) : Quiet s s :=
  ⟨rfl, List.Perm.refl _, rfl, rfl, rfl, fun _ => rfl, fun _ => rfl⟩

theorem Quiet.trans {u : Scheduler} (first : Quiet s t) (second : Quiet t u) : Quiet s u where
  run := second.run.trans first.run
  wait := second.wait.trans first.wait
  current := second.current.trans first.current
  idle := second.idle.trans first.idle
  counter := second.counter.trans first.counter
  waiter thread := (second.waiter thread).trans (first.waiter thread)
  info thread := (second.info thread).trans (first.info thread)

theorem quiet_modifyThread (s : Scheduler) (thread : Tid) {change : Thread → Thread}
    (hWaiter : ∀ thread, (change thread).waitManager = thread.waitManager)
    (hInfo : ∀ thread, (change thread).interruptionInfo = thread.interruptionInfo) :
    Quiet s (s.modifyThread thread change) := by
  refine ⟨rfl, List.Perm.refl _, rfl, rfl, rfl, fun other => ?_, fun other => ?_⟩
  all_goals rw [threads_modifyThread]
  · split
    · next hEq => rw [hWaiter, hEq]
    · rfl
  · split
    · next hEq => rw [hInfo, hEq]
    · rfl

theorem quiet_kill (s : Scheduler) (thread : Tid) :
    Quiet s (s.modifyThread thread fun thread => { thread with alive := false }) :=
  quiet_modifyThread s thread (fun _ => rfl) fun _ => rfl

theorem quiet_increaseWaitPriority (s : Scheduler) (thread : Tid) :
    Quiet s (s.increaseWaitPriority thread) := by
  unfold increaseWaitPriority removeFromQueue
  by_cases hMem : thread ∈ s.waitQueue
  · rw [if_pos hMem]
    exact ⟨rfl, (perm_cons_erase hMem).symm, rfl, rfl, rfl, fun _ => rfl, fun _ => rfl⟩
  · rw [if_neg hMem]
    exact Quiet.refl s

inductive Effect (s : Scheduler) (event : Event) (t : Scheduler) : Prop where
  | schedule (states : Nat → ProcessorState) (checks : Tid → Check) (hEvent : event.Schedules s)
      (hSchedule : { s with cpuStates := states }.schedule checks = some t)
  | block (thread : Tid) (waiter : Option Waiter) (mark : Mark) (hEvent : event.Blocks s thread)
      (hBlocked : Blocked s t thread waiter) (hMark : event.Marks s thread mark)
      (hChange : Change (s.threads thread) mark (t.threads thread))
  | add (type : ThreadType) (priority : ThreadPriority) (process : Pid) (cpuState : Nat)
      (hEvent : event = .add type priority process cpuState)
      (hIdle : priority = .idle → s.idleEntry = none)
      (hAdd : t = s.add type priority process cpuState)
  | quiet (hQuiet : Quiet s t)

theorem effect_enterHandler (h : s.Queues)
    (hEvent : event.Blocks s thread) {type : ThreadInterruptionInfoType} {irq address callback : Nat}
    {signal : Int} (hMark : event.request s thread = some ⟨type, irq, signal, address, callback⟩) :
    Effect s event (match s.startPrepareInterruption thread type irq signal with
      | none => s
      | some started => started.finishPrepareInterruption thread address callback) := by
  rcases enterHandler_cases h thread type irq address callback signal with
    ⟨-, hSame⟩ | ⟨hBlocked, hChange⟩
  · rw [hSame]
    exact Effect.quiet (Quiet.refl s)
  · exact Effect.block thread _ (.interrupt _) hEvent hBlocked hMark hChange

theorem effect_raiseSignal (h : s.Queues)
    (hTarget : target ∈ s.runQueue ∨ target ∈ s.waitQueue) (signal : Int) (handler : SignalHandler) :
    Effect s (.raiseSignal target signal handler) (s.raiseSignal target signal handler) := by
  unfold raiseSignal
  split
  · next hHandler =>
      split
      · exact Effect.quiet (Quiet.refl s)
      · next handling hHandling =>
          have hEvent : (Event.raiseSignal target signal handler).Blocks s handling :=
            (handlingThread_eq_some hTarget hHandling).1
          exact effect_enterHandler h hEvent (if_pos ⟨hHandler, hHandling⟩)
  · split
    · exact Effect.quiet ((quiet_kill s target).trans (quiet_kill _ _))
    · exact Effect.quiet (Quiet.refl s)

/-- Every event has one of the effects listed. -/
theorem step_effect (h : s.Queues) (hStep : Step s event t) : Effect s event t := by
  unfold Step at hStep
  cases event with
  | add type priority process cpuState =>
    simp only [execute] at hStep
    split at hStep
    · cases hStep
    · next hNot =>
        cases hStep
        refine Effect.add type priority process cpuState rfl (fun hIdle => ?_) rfl
        by_contra hSome
        exact hNot ⟨hIdle, hSome⟩
  | save address state checks =>
    simp only [execute, save] at hStep
    split at hStep
    · next thread hCurrent =>
        cases hStep
        have hPushed : Quiet s { s with cpuStates := update s.cpuStates address state } :=
          ⟨rfl, List.Perm.refl _, rfl, rfl, rfl, fun _ => rfl, fun _ => rfl⟩
        exact Effect.quiet (hPushed.trans (quiet_modifyThread _ _ (fun _ => rfl) fun _ => rfl))
    · next hCurrent => exact Effect.schedule _ checks hCurrent hStep
  | schedule checks => exact Effect.schedule s.cpuStates checks trivial hStep
  | wait address =>
    obtain ⟨thread, hRunning, rfl⟩ := Option.map_eq_some_iff.mp hStep
    obtain ⟨hCurrent, hMem⟩ := running_eq_some.mp hRunning
    have hBlocked := wait_blocked h thread (some (.object address))
    refine Effect.block thread _ .other hCurrent hBlocked trivial
      (.wait address (fun _ _ hPerform => ?_) hBlocked.waiter ?_)
    · cases (h.runnable thread hMem).symm.trans hPerform
    · rw [threads_wait, if_pos rfl]
  | irq threadID address irq callback =>
    simp only [execute] at hStep
    split at hStep
    · cases hStep
      exact Effect.quiet (Quiet.refl s)
    · next thread hFound =>
        cases hStep
        have hEvent : (Event.irq threadID address irq callback).Blocks s thread :=
          (getTaskById_eq_some hFound).1
        exact effect_enterHandler h hEvent (if_pos hFound)
  | raiseSignal target signal handler =>
    simp only [execute] at hStep
    split at hStep
    · next hTarget =>
        cases hStep
        exact effect_raiseSignal h hTarget signal handler
    · cases hStep
  | restoreInterruptedState =>
    obtain ⟨thread, hRunning, hRestore⟩ := Option.bind_eq_some_iff.mp hStep
    have hCurrent := (running_eq_some.mp hRunning).1
    obtain ⟨info, hInfo, hBlocked, hNone⟩ := restoreInterruptedState_spec h hRestore
    exact Effect.block thread _ .restore hCurrent hBlocked ⟨rfl, hCurrent⟩
      (.restore hInfo hBlocked.waiter hNone)
  | kill thread =>
    cases hStep
    exact Effect.quiet (quiet_kill s thread)
  | increaseWaitPriority thread =>
    cases hStep
    exact Effect.quiet (quiet_increaseWaitPriority s thread)
  | store process address word =>
    cases hStep
    exact Effect.quiet ⟨rfl, List.Perm.refl _, rfl, rfl, rfl, fun _ => rfl, fun _ => rfl⟩

end Inversion

section Invariant

variable {s t : Scheduler} {checks : Tid → Check}

section

variable (h : s.Valid)

include h

theorem Valid.quiet (hQuiet : Quiet s t) : t.Valid := by
  refine ⟨h.queues.within ?_ (hQuiet.wait.nodup_iff.mpr h.queues.wait_nodup) ?_ ?_ hQuiet.idle
    hQuiet.counter ?_, ?_⟩
  all_goals simp only [hQuiet.run, hQuiet.wait.mem_iff, hQuiet.waiter]
  · exact h.queues.run_nodup
  · exact h.queues.apart
  · exact fun _ hMem => hMem
  · exact h.queues.runnable
  · rw [hQuiet.current, hQuiet.idle]
    exact h.current

/-- The pass of `schedule` over the wait queue, and the selection after it. -/
theorem schedule_parts (hSchedule : s.schedule checks = some t) :
    ∃ processed, s.processWaitQueue checks = some processed ∧
      (∀ current, s.currentEntry = some current → current ∉ processed.waitQueue) ∧
      selectNext (processed.runQueue.length + 1)
        { processed with currentEntry := s.currentEntry } = some t := by
  unfold schedule at hSchedule
  split at hSchedule
  · cases hSchedule
  · next processed hProcessed =>
      have hPass : Wakes s processed := wakes_processWaitQueueFrom hProcessed
      refine ⟨processed, hProcessed, ?_, hSchedule⟩
      intro current hCurrent hIn
      rcases h.current current hCurrent with hMem | hIdle
      · exact h.queues.apart current hMem (hPass.wait.subset hIn)
      · exact (h.queues.idle current hIdle).2 (hPass.wait.subset hIn)

/-- `schedule` checks the waiting threads and then selects one from where the
cursor was, which is not a waiting thread. -/
theorem schedule_split (hSchedule : s.schedule checks = some t) :
    ∃ ready fuel, Wakes s ready ∧ ready.currentEntry = s.currentEntry ∧
      (∀ current, ready.currentEntry = some current → current ∉ ready.waitQueue) ∧
      selectNext fuel ready = some t := by
  obtain ⟨processed, hProcessed, hNotWaiting, hSelected⟩ := schedule_parts h hSchedule
  have hPass : Wakes s { processed with currentEntry := s.currentEntry } :=
    (wakes_processWaitQueueFrom hProcessed).withCurrent s.currentEntry s.currentEntry
  exact ⟨_, _, hPass, rfl, hNotWaiting, hSelected⟩

theorem schedule_spec (hSchedule : s.schedule checks = some t) : Wakes s t ∧ t.Valid ∧
      ∃ thread, t.currentEntry = some thread ∧ (t.threads thread).alive = true := by
  obtain ⟨ready, fuel, hPass, -, hNotWaiting, hSelected⟩ := schedule_split h hSchedule
  obtain ⟨hSelect, thread, hCurrent, hPlace, hAlive⟩ := selectNext_spec hNotWaiting hSelected
  have hWakes := hPass.trans hSelect
  refine ⟨hWakes, ⟨hWakes.queues h.queues, ?_⟩, thread, hCurrent, hAlive⟩
  intro other hOther
  cases hCurrent.symm.trans hOther
  exact hPlace

theorem Valid.withStates (states : Nat → ProcessorState) : { s with cpuStates := states }.Valid :=
  h.quiet ⟨rfl, List.Perm.refl _, rfl, rfl, rfl, fun _ => rfl, fun _ => rfl⟩

/-- A new thread leaves the scheduler valid, if it is not a second idle thread. -/
theorem Valid.add (type : ThreadType) {priority : ThreadPriority} (process : Pid)
    (cpuState : Nat) (hIdle : priority = .idle → s.idleEntry = none) :
    (s.add type priority process cpuState).Valid := by
  have hNotRun : s.taskIdCounter ∉ s.runQueue := fun hMem =>
    Int.lt_irrefl _ (h.queues.run_fresh _ hMem)
  have hNotWait : s.taskIdCounter ∉ s.waitQueue := fun hMem =>
    Int.lt_irrefl _ (h.queues.wait_fresh _ hMem)
  have hNotIdle : ∀ thread, s.idleEntry = some thread → thread ≠ s.taskIdCounter := by
    rintro _ hEntry rfl
    exact Int.lt_irrefl _ (h.queues.idle_fresh _ hEntry)
  have hLess : ∀ thread : Tid, thread < s.taskIdCounter → thread < s.taskIdCounter + 1 :=
    fun thread hFresh => Int.lt_trans hFresh (Int.lt_succ _)
  have hOld : ∀ thread ∈ s.runQueue,
      (update s.threads s.taskIdCounter
        (Thread.new type priority process cpuState) thread).waitManager = none := by
    intro thread hMem
    rw [update_of_ne (by rintro rfl; exact hNotRun hMem)]
    exact h.queues.runnable thread hMem
  have hNew : (update s.threads s.taskIdCounter
      (Thread.new type priority process cpuState) s.taskIdCounter).waitManager = none := by
    rw [update_self]
    rfl
  cases priority with
  | idle =>
    exact
      { queues :=
          { run_nodup := h.queues.run_nodup
            wait_nodup := h.queues.wait_nodup
            apart := h.queues.apart
            idle := by
              rintro _ ⟨⟩
              exact ⟨hNotRun, hNotWait⟩
            run_fresh := fun thread hMem => hLess thread (h.queues.run_fresh thread hMem)
            wait_fresh := fun thread hMem => hLess thread (h.queues.wait_fresh thread hMem)
            idle_fresh := by
              rintro _ ⟨⟩
              exact Int.lt_succ _
            runnable := hOld }
        current := by
          intro thread hCurrent
          rcases h.current thread hCurrent with hMem | hEntry
          · exact Or.inl hMem
          · rw [hIdle rfl] at hEntry
            cases hEntry }
  | normal =>
    exact
      { queues :=
          { run_nodup := nodup_cons.mpr ⟨hNotRun, h.queues.run_nodup⟩
            wait_nodup := h.queues.wait_nodup
            apart := by
              intro thread hMem
              rcases mem_cons.mp hMem with rfl | hMem
              · exact hNotWait
              · exact h.queues.apart thread hMem
            idle := by
              intro thread hEntry
              have hOut := h.queues.idle thread hEntry
              refine ⟨fun hMem => ?_, hOut.2⟩
              rcases mem_cons.mp hMem with hEq | hMem
              · exact hNotIdle thread hEntry hEq
              · exact hOut.1 hMem
            run_fresh := by
              intro thread hMem
              rcases mem_cons.mp hMem with rfl | hMem
              · exact Int.lt_succ _
              · exact hLess thread (h.queues.run_fresh thread hMem)
            wait_fresh := fun thread hMem => hLess thread (h.queues.wait_fresh thread hMem)
            idle_fresh := fun thread hEntry => hLess thread (h.queues.idle_fresh thread hEntry)
            runnable := by
              intro thread hMem
              rcases mem_cons.mp hMem with rfl | hMem
              · exact hNew
              · exact hOld thread hMem }
        current := by
          intro thread hCurrent
          rcases h.current thread hCurrent with hMem | hEntry
          · exact Or.inl (mem_cons_of_mem _ hMem)
          · exact Or.inr hEntry }

theorem step_valid {event : Event} (hStep : Step s event t) : t.Valid := by
  cases step_effect h.queues hStep with
  | schedule states checks _ hSchedule => exact (schedule_spec (h.withStates states) hSchedule).2.1
  | block thread waiter _ _ hBlocked => exact h.blocked hBlocked
  | add type priority process cpuState _ hIdle hAdd =>
    subst hAdd
    exact h.add type process cpuState hIdle
  | quiet hQuiet => exact h.quiet hQuiet

end

theorem new_valid (cpuStates : Nat → ProcessorState) (userWords : Pid → Nat → Nat) :
    (new cpuStates userWords).Valid where
  queues := new_queues cpuStates userWords
  current := by simp [new]

theorem run_valid {cpuStates : Nat → ProcessorState} {userWords : Pid → Nat → Nat}
    {events : List Event} (run : Run Step (new cpuStates userWords) events s) : s.Valid :=
  run.invariant (new_valid cpuStates userWords) fun _ _ _ hValid hStep => step_valid hValid hStep

end Invariant

end Kernel.Scheduler
