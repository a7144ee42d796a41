import MeetiX.Kernel.Tasking.ThreadChanges

/-! The interruption of a thread by a request or a signal handler, up to the return from the
handler. The waiter of the thread is put aside in between, and the return makes the thread wait
for it again, whether or not there was one. -/
namespace Kernel.Scheduler

open Base

/-- The thread can run, or it waits for what it was waiting for. -/
def Restored (before after : Scheduler) (thread : Tid) : Prop :=
  thread ∈ after.runQueue ∨
    thread ∈ after.waitQueue ∧ ∃ waiter, (before.threads thread).waitManager = some waiter ∧
      (after.threads thread).waitManager = some waiter

/-- A step other than the return of the thread from its handler. -/
def StepDuring (thread : Tid) (s : Scheduler) (event : Event) (t : Scheduler) : Prop :=
  Step s event t ∧ ¬(event = .restoreInterruptedState ∧ s.currentEntry = some thread)

section Held

variable {s t : Scheduler} {thread : Tid} {event : Event} {before after : Thread} {mark : Mark}
  {P : ThreadInterruptionInfo → Prop} {Q : Nat → Nat → Prop}

/-- The thread is being interrupted with information of this kind, and may wait for this handler
only. -/
structure Held (P : ThreadInterruptionInfo → Prop) (Q : Nat → Nat → Prop) (thread : Thread) :
    Prop where
  info : ∃ info, thread.interruptionInfo = some info ∧ P info
  performing : ∀ entry callback,
    thread.waitManager = some (.performInterruption entry callback) → Q entry callback

/-- What is kept when the processor state is put aside is kept until the return. -/
theorem Held.change (hStore : ∀ info entry callback state address, P info → Q entry callback →
      P { info with cpuState := state, cpuStateAddress := address })
    (h : Held P Q before) (hMark : mark ≠ .restore) (hChange : Change before mark after) :
    Held P Q after := by
  obtain ⟨⟨info, hInfo, hP⟩, hPerforming⟩ := h
  cases hChange with
  | same hWaiter hSame =>
    refine ⟨⟨info, hSame.trans hInfo, hP⟩, ?_⟩
    rw [hWaiter]
    exact hPerforming
  | wait address _ hWaiter hSame =>
    refine ⟨⟨info, hSame.trans hInfo, hP⟩, ?_⟩
    rw [hWaiter]
    rintro _ _ ⟨⟩
  | unwait _ hWaiter hSame =>
    refine ⟨⟨info, hSame.trans hInfo, hP⟩, ?_⟩
    rw [hWaiter]
    rintro _ _ ⟨⟩
  | interrupt request hFree _ _ => cases hFree.symm.trans hInfo
  | perform state address hPerform hBefore hWaiter hStored =>
    cases hInfo.symm.trans hBefore
    refine ⟨⟨_, hStored, hStore info _ _ state address hP (hPerforming _ _ hPerform)⟩, ?_⟩
    rw [hWaiter]
    rintro _ _ ⟨⟩
  | restore _ _ _ => exact absurd rfl hMark

theorem Held.evolves {allowed : Mark → Prop}
    (hStore : ∀ info entry callback state address, P info → Q entry callback →
      P { info with cpuState := state, cpuStateAddress := address })
    (h : Held P Q (s.threads thread)) (hEvolves : Evolves allowed s t thread)
    (hAllowed : ¬allowed .restore) : Held P Q (t.threads thread) := by
  refine hEvolves.keeps (fun before mark after hHeld hMark => hHeld.change hStore ?_) h
  rintro rfl
  exact hAllowed hMark

structure HeldIn (P : ThreadInterruptionInfo → Prop) (Q : Nat → Nat → Prop) (thread : Tid)
    (s : Scheduler) : Prop where
  valid : s.Valid
  known : thread < s.taskIdCounter
  held : Held P Q (s.threads thread)

theorem counter_le_add (s : Scheduler) (type : ThreadType) (priority : ThreadPriority)
    (process : Pid) (cpuState : Nat) :
    s.taskIdCounter ≤ (s.add type priority process cpuState).taskIdCounter := by
  cases priority <;> exact Int.le_of_lt (Int.lt_succ _)

theorem step_known (h : s.Valid) (hStep : Step s event t) (hKnown : thread < s.taskIdCounter) :
    thread < t.taskIdCounter := by
  cases step_effect h.queues hStep with
  | schedule states checks _ hSchedule =>
    rw [(schedule_spec (h.withStates states) hSchedule).1.counter]
    exact hKnown
  | block _ _ _ _ hBlocked => rw [hBlocked.counter]; exact hKnown
  | add type priority process cpuState _ _ hAdd =>
    subst hAdd
    exact Int.lt_of_lt_of_le hKnown (counter_le_add s type priority process cpuState)
  | quiet hQuiet => rw [hQuiet.counter]; exact hKnown

theorem HeldIn.step (hStore : ∀ info entry callback state address, P info → Q entry callback →
      P { info with cpuState := state, cpuStateAddress := address })
    (h : HeldIn P Q thread s) (hStep : StepDuring thread s event t) : HeldIn P Q thread t := by
  have hEvolves : Evolves (event.Marks s thread) s t thread :=
    step_evolves h.valid.queues hStep.1 fun _ _ _ _ _ => Int.ne_of_lt h.known
  exact ⟨step_valid h.valid hStep.1, step_known h.valid hStep.1 h.known,
    h.held.evolves hStore hEvolves hStep.2⟩

/-- An event with a request for a thread that is not being interrupted begins the interruption. -/
theorem step_request {request : Request} (h : s.Queues) (hStep : Step s event t)
    (hRequest : event.request s thread = some request) :
    (thread ∈ s.runQueue ∨ thread ∈ s.waitQueue) ∧
      ((s.threads thread).interruptionInfo ≠ none ∧ t = s ∨
        Change (s.threads thread) (.interrupt request) (t.threads thread)) := by
  cases event with
  | irq threadID address irq callback =>
    simp only [Event.request] at hRequest
    split at hRequest
    · next hFound =>
        cases hRequest
        simp only [Step, execute, hFound] at hStep
        cases hStep
        exact ⟨(getTaskById_eq_some hFound).2.2,
          (enterHandler_cases h thread .irq irq address callback 0).imp_right And.right⟩
    · cases hRequest
  | raiseSignal target signal handler =>
    simp only [Event.request] at hRequest
    split at hRequest
    · next hHandling =>
        cases hRequest
        simp only [Step, execute] at hStep
        split at hStep
        · next hTarget =>
            rw [raiseSignal, if_pos hHandling.1, hHandling.2] at hStep
            cases hStep
            exact ⟨(handlingThread_eq_some hTarget hHandling.2).2,
              (enterHandler_cases h thread .signal 0 handler.handler handler.callback
                signal).imp_right And.right⟩
        · cases hStep
    · cases hRequest
  | add | save | schedule | wait | restoreInterruptedState | kill | increaseWaitPriority | store =>
    cases hRequest

/-- The waiter that a thread has when its interruption begins is put aside. -/
theorem heldIn_of_begin (h : s.Valid) (hStep : Step s event t)
    (hBefore : (s.threads thread).interruptionInfo = none)
    (hAfter : (t.threads thread).interruptionInfo ≠ none) :
    HeldIn (fun info => info.waitManager = (s.threads thread).waitManager) (fun _ _ => True)
      thread t := by
  cases hRequest : event.request s thread with
  | some request =>
    obtain ⟨hIn, ⟨-, rfl⟩ | hChange⟩ := step_request h.queues hStep hRequest
    · exact absurd hBefore hAfter
    · have hKnown := hIn.elim (h.queues.run_fresh thread) (h.queues.wait_fresh thread)
      cases hChange with
      | interrupt _ _ _ hInfo =>
        exact ⟨step_valid h hStep, step_known h hStep hKnown, ⟨_, hInfo, rfl⟩, fun _ _ _ => trivial⟩
  | none =>
    refine absurd (step_keeps (P := fun record => record.interruptionInfo = none) h.queues hStep
      (fun _ _ _ _ => rfl) (fun before mark after hNone hMark hChange => ?_) hBefore) hAfter
    cases hChange with
    | same _ hInfo => exact hInfo.trans hNone
    | wait _ _ _ hInfo => exact hInfo.trans hNone
    | unwait _ _ hInfo => exact hInfo.trans hNone
    | interrupt request => cases hRequest.symm.trans hMark
    | perform _ _ _ hSome => cases hNone.symm.trans hSome
    | restore hSome => cases hNone.symm.trans hSome

end Held

section Return

variable {before begun ready after : Scheduler} {thread : Tid} {event : Event}
  {cpuStates : Nat → ProcessorState} {userWords : Pid → Nat → Nat} {earlier during : List Event}

section

variable (hBefore : Run Step (new cpuStates userWords) earlier before)
  (hNone : (before.threads thread).interruptionInfo = none)
  (hBegin : Step before event begun)
  (hBegun : (begun.threads thread).interruptionInfo ≠ none)
  (hDuring : Run (StepDuring thread) begun during ready)
  (hReady : ready.currentEntry = some thread)
  (hReturn : Step ready .restoreInterruptedState after)

include hBefore hNone hBegin hBegun hDuring hReady hReturn

/-- The return puts the thread into the wait queue with the waiter, if any, that
it had when the interruption began. -/
theorem return_blocks : thread ∈ ready.runQueue ∧ ready.Valid ∧
      Blocked ready after thread (before.threads thread).waitManager := by
  have hInterrupted : HeldIn (fun info => info.waitManager = (before.threads thread).waitManager)
      (fun _ _ => True) thread ready :=
    hDuring.invariant (heldIn_of_begin (run_valid hBefore) hBegin hNone hBegun)
      fun _ _ _ hState hStep => hState.step (fun _ _ _ _ _ hSame _ => hSame) hStep
  obtain ⟨running, hRunning, hRestore⟩ := Option.bind_eq_some_iff.mp hReturn
  obtain ⟨hCurrent, hMem⟩ := running_eq_some.mp hRunning
  cases hReady.symm.trans hCurrent
  obtain ⟨info, hInfo, hBlocked, -⟩ :=
    restoreInterruptedState_spec hInterrupted.valid.queues hRestore
  obtain ⟨_, hKept, hWaiter⟩ := hInterrupted.held.info
  cases hKept.symm.trans hInfo
  rw [hWaiter] at hBlocked
  exact ⟨hMem, hInterrupted.valid, hBlocked⟩

/-- A thread comes back from a handler as it was exactly if it was waiting for
something when it was interrupted. -/
theorem restored_iff_had_waiter :
    Restored before after thread ↔ (before.threads thread).waitManager ≠ none := by
  obtain ⟨hMem, hValid, hBlocked⟩ :=
    return_blocks hBefore hNone hBegin hBegun hDuring hReady hReturn
  have hNotRun : thread ∉ after.runQueue := by
    rw [hBlocked.run]
    exact hValid.queues.run_nodup.not_mem_erase
  have hWaits : thread ∈ after.waitQueue := by
    rw [hBlocked.wait, if_pos hMem]
    exact List.mem_cons_self
  constructor
  · rintro (hRun | ⟨-, waiter, hWaiter, -⟩) hNoWaiter
    · exact hNotRun hRun
    · cases hWaiter.symm.trans hNoWaiter
  · intro hWaiter
    obtain ⟨waiter, hSome⟩ := Option.ne_none_iff_exists'.mp hWaiter
    exact Or.inr ⟨hWaits, waiter, hSome, hBlocked.waiter.trans hSome⟩

end

/-- The idle thread of the core and a thread that runs. -/
def runningThread : List Event :=
  [.add .main .idle 0 0, .add .main .normal 1 0, .schedule fun _ => .stop]

/-- The thread waits for an object. -/
def waitingThread : List Event := runningThread ++ [.wait 5]

/-- A request whose handler belongs to the thread. -/
def request : Event := .irq 1 0x1000 9 0x2000

/-- A call of `schedule` in which no object is ready. -/
def pass : Event := .schedule fun _ => .wait

def reached (events : List Event) : Scheduler := replay execute (new default default) events

theorem step_reached {events : List Event} {event : Event} (rest : List Event)
    (h : ((events ++ event :: rest).foldlM execute (new default default)).isSome) :
    Step (reached events) event (reached (events ++ [event])) :=
  execute_replay rest h

/-- A request arrives, the handler is entered, and the thread returns. -/
theorem step_handled {events : List Event} (h : ((events ++
      [request, pass, .restoreInterruptedState]).foldlM execute (new default default)).isSome) :
    Step (reached events) request (reached (events ++ [request])) ∧
      Step (reached (events ++ [request])) pass (reached (events ++ [request, pass])) ∧
      Step (reached (events ++ [request, pass])) .restoreInterruptedState
        (reached (events ++ [request, pass, .restoreInterruptedState])) := by
  have hPass := @step_reached (events ++ [request]) pass [.restoreInterruptedState]
  have hReturn := @step_reached (events ++ [request, pass]) .restoreInterruptedState []
  simp only [List.append_assoc] at hPass hReturn
  exact ⟨step_reached _ h, hPass h, hReturn h⟩

/-- A thread that waits for an object is interrupted by a request, runs the
handler and waits for the object again. -/
theorem restored_iff_had_waiter_waiting : ∃ before begun ready after : Scheduler,
      Run Step (new default default) waitingThread before ∧
      Step before request begun ∧
      Run (StepDuring 1) begun [pass] ready ∧
      Step ready .restoreInterruptedState after ∧ Restored before after 1 := by
  have hBefore : Run Step (new default default) waitingThread (reached waitingThread) :=
    run_replay rfl
  obtain ⟨hBegin, hPass, hReturn⟩ := @step_handled waitingThread rfl
  have hDuring : Run (StepDuring 1) _ [pass] _ := Run.single ⟨hPass, by simp [pass]⟩
  refine ⟨_, _, _, _, hBefore, hBegin, hDuring, hReturn, ?_⟩
  exact (restored_iff_had_waiter hBefore rfl hBegin (by rintro ⟨⟩) hDuring rfl hReturn).mpr
    (by rintro ⟨⟩)

/-- A running thread that is interrupted by a request ends up in the wait queue
without a waiter. -/
theorem interrupted_running_thread_is_lost : ∃ before begun ready after : Scheduler,
      Run Step (new default default) runningThread before ∧
      (before.currentEntry = some 1 ∧ 1 ∈ before.runQueue) ∧
      (before.threads 1).interruptionInfo = none ∧
      Step before request begun ∧
      Run (StepDuring 1) begun [pass] ready ∧
      ready.currentEntry = some 1 ∧
      Step ready .restoreInterruptedState after ∧
      1 ∈ after.waitQueue ∧ (after.threads 1).waitManager = none ∧ ¬Restored before after 1 := by
  have hBefore : Run Step (new default default) runningThread (reached runningThread) :=
    run_replay rfl
  obtain ⟨hBegin, hPass, hReturn⟩ := @step_handled runningThread rfl
  have hDuring : Run (StepDuring 1) _ [pass] _ := Run.single ⟨hPass, by simp [pass]⟩
  refine ⟨_, _, _, _, hBefore, ⟨rfl, List.mem_cons_self⟩, rfl, hBegin, hDuring, rfl, hReturn,
    List.mem_cons_self, rfl, ?_⟩
  rintro (hMem | ⟨-, waiter, hWaiter, -⟩)
  · cases hMem
  · cases hWaiter

/-- In every run a thread that waits for its interruption is not runnable and its handler can be
entered; the return from a handler never leads into another one. -/
theorem interruption_entered_once (hRun : Run Step (new cpuStates userWords) earlier before)
    (thread : Tid) :
    (∀ entry callback,
      (before.threads thread).waitManager = some (.performInterruption entry callback) →
      thread ∉ before.runQueue ∧ (before.performInterruption thread entry callback).isSome) ∧
    ∀ after, before.restoreInterruptedState thread = some after → ∀ entry callback,
      (after.threads thread).waitManager ≠ some (.performInterruption entry callback) := by
  have h := run_consistent hRun
  refine ⟨fun entry callback hWaiter => ⟨fun hMem => ?_, ?_⟩, fun after hRestore => ?_⟩
  · cases (h.valid.queues.runnable thread hMem).symm.trans hWaiter
  · have hPrepared := (h.sound thread).prepared entry callback hWaiter
    obtain ⟨info, hInfo⟩ := Option.ne_none_iff_exists'.mp hPrepared
    rw [performInterruption, hInfo]
    rfl
  · obtain ⟨info, hInfo, hBlocked, -⟩ := restoreInterruptedState_spec h.valid.queues hRestore
    rw [hBlocked.waiter]
    exact (h.sound thread).saved info hInfo

/-- The thread that waits for an object, after the request. -/
theorem interruption_entered_once_waiting :
    ((reached (waitingThread ++ [request])).performInterruption 1 0x1000 0x2000).isSome := by
  have hRun : Run Step (new default default) _ (reached (waitingThread ++ [request])) :=
    run_replay rfl
  exact ((interruption_entered_once hRun 1).1 0x1000 0x2000 rfl).2

end Return

end Kernel.Scheduler
