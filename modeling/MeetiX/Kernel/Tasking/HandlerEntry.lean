import MeetiX.Kernel.Tasking.WaitPass

/-! The handler of a request or a signal. The pass of `schedule` puts the processor state of the
thread aside for one that starts the handler; the return from the handler brings the old one back,
whatever has happened in between. -/
namespace Kernel.Scheduler

open Base Function

/-- The word that tells the handler what it handles. -/
def Request.number (request : Request) : Nat :=
  match request.type with
  | .irq => request.handledIrq
  | .signal => (request.handledSignal % wordSize).toNat
  | .none => 0

/-- The state from which the event calls `schedule`, and the answers of the waiters. -/
def Event.call (s : Scheduler) : Event → Option (Scheduler × (Tid → Check))
  | .schedule checks => some (s, checks)
  | .save address state checks =>
    if s.currentEntry = none then
      some ({ s with cpuStates := update s.cpuStates address state }, checks)
    else none
  | _ => none

/-- The pass over the wait queue comes to the thread in the state `here` and performs its
interruption, which gives the state `done`. -/
def Performs (checks : Tid → Check) (s here done : Scheduler) (thread : Tid) : Prop :=
  Relation.ReflTransGen (PassStep checks) (s, s.waitQueue.head?) (here, some thread) ∧
    (here.threads thread).alive = true ∧
    (∃ entry callback,
      (here.threads thread).waitManager = some (.performInterruption entry callback)) ∧
    ∃ next, PassStep checks (here, some thread) (done, next)

/-- The thread goes on with the handler: the callback is on top of its stack, and the number in the
word above. -/
structure StartsHandler (s : Scheduler) (thread : Tid) (request : Request) : Prop where
  eip : (s.cpuStates (s.threads thread).cpuState).eip = request.entry
  callback : s.userWords (s.processOf thread) (s.cpuStates (s.threads thread).cpuState).esp =
    request.callback
  number : s.userWords (s.processOf thread)
    (wrap32 ((s.cpuStates (s.threads thread).cpuState).esp + 4)) = request.number

section Perform

variable {s t here done : Scheduler} {thread : Tid} {checks : Tid → Check}
  {request : Request} {waiter : Option Waiter} {info : ThreadInterruptionInfo}
variable {position : Position}

/-- What a request leaves behind until the return: its own data and the waiter put aside. -/
abbrev FromRequest (request : Request) (waiter : Option Waiter) (info : ThreadInterruptionInfo) :
    Prop :=
  info.waitManager = waiter ∧ info.type = request.type ∧ info.handledIrq = request.handledIrq ∧
    info.handledSignal = request.handledSignal

abbrev ForHandler (request : Request) (entry callback : Nat) : Prop :=
  entry = request.entry ∧ callback = request.callback

/-- The processor state put aside. -/
abbrev WithState (state : ProcessorState) (address : Nat) (info : ThreadInterruptionInfo) : Prop :=
  info.cpuState = state ∧ info.cpuStateAddress = address

theorem wrap32_sub32_add (n : Nat) : wrap32 (sub32 (sub32 n 4) 4 + 4) = sub32 n 4 := by
  unfold sub32 wrap32 wordSize
  omega

theorem sub32_ne_self (n : Nat) : sub32 (sub32 n 4) 4 ≠ sub32 n 4 := by
  unfold sub32 wordSize
  omega

theorem request_type {event : Event} (h : event.request s thread = some request) :
    request.type ≠ .none := by
  cases event with
  | irq | raiseSignal =>
    simp only [Event.request] at h
    split at h
    · cases h
      exact ThreadInterruptionInfoType.noConfusion
    · cases h
  | add | save | schedule | wait | restoreInterruptedState | kill | increaseWaitPriority | store =>
    cases h

theorem performInterruption_starts (hInfo : (s.threads thread).interruptionInfo = some info)
    (hFrom : FromRequest request waiter info) (hType : request.type ≠ .none)
    (h : s.performInterruption thread request.entry request.callback = some t) :
    StartsHandler t thread request := by
  obtain ⟨-, hSame, hIrq, hSignal⟩ := hFrom
  have hCallback := sub32_ne_self (s.cpuStates (s.threads thread).cpuState).esp
  unfold performInterruption at h
  rw [hInfo] at h
  cases h
  have hThread : ((s.storeForInterruption thread info).threads thread).cpuState =
      (s.threads thread).cpuState := by
    rw [storeForInterruption, threads_modifyThread_self]
  have hProcess : (s.storeForInterruption thread info).processOf thread = s.processOf thread := by
    rw [processOf, storeForInterruption, threads_modifyThread_self]
  have hStates : (s.storeForInterruption thread info).cpuStates = s.cpuStates := rfl
  cases hKind : request.type with
  | none => exact absurd hKind hType
  | irq =>
    refine ⟨?_, ?_, ?_⟩
    all_goals
      simp only [hThread, hProcess, hStates, processOf, update_self, hSame, Request.number,
        hKind, wrap32_sub32_add, hIrq, update_of_ne hCallback.symm]
  | signal =>
    refine ⟨?_, ?_, ?_⟩
    all_goals
      simp only [hThread, hProcess, hStates, processOf, update_self, hSame, Request.number,
        hKind, wrap32_sub32_add, hSignal, update_of_ne hCallback.symm]

theorem visit_starts (hAlive : (s.threads thread).alive = true)
    (hWaiter : (s.threads thread).waitManager =
      some (.performInterruption request.entry request.callback))
    (hInfo : (s.threads thread).interruptionInfo = some info)
    (hFrom : FromRequest request waiter info) (hType : request.type ≠ .none)
    (h : visit checks s thread = some t) :
    StartsHandler t thread request ∧
      Held (WithState (s.cpuStates (s.threads thread).cpuState) (s.threads thread).cpuState)
        (fun _ _ => False) (t.threads thread) := by
  rw [visit_of_alive hAlive] at h
  simp only [checkWaitingState, hWaiter] at h
  obtain ⟨performed, hPerform, rfl⟩ := Option.map_eq_some_iff.mp h
  have hStarts := performInterruption_starts hInfo hFrom hType hPerform
  obtain ⟨info', states, words, hInfo', hPerformed⟩ := performInterruption_eq_some hPerform
  cases hInfo.symm.trans hInfo'
  rw [unwait_of_waiter (by simp [hPerformed, hWaiter])]
  refine ⟨⟨?_, ?_, ?_⟩, ⟨?_, ?_⟩⟩
  · simpa [modifyThread] using hStarts.eip
  · simpa [modifyThread, processOf] using hStarts.callback
  · simpa [modifyThread, processOf] using hStarts.number
  · simp only [threads_modifyThread_self, hPerformed, update_self]
    exact ⟨_, rfl, rfl, rfl⟩
  · simp

/-- The pass goes on from every position it comes to. -/
theorem processWaitQueueFrom_of_reachable {fuel : Nat} {entry : Option Tid}
    (hReach : Relation.ReflTransGen (PassStep checks) (s, entry) position)
    (h : processWaitQueueFrom checks fuel s entry = some t) :
    ∃ left, processWaitQueueFrom checks left position.1 position.2 = some t := by
  induction hReach with
  | refl => exact ⟨fuel, h⟩
  | @tail middle next _ hStep ih =>
    obtain ⟨left, hLeft⟩ := ih
    obtain ⟨target, hTarget, hNext, hVisit⟩ := hStep
    rw [hTarget] at hLeft
    cases left with
    | zero => cases hLeft
    | succ left =>
      rw [processWaitQueueFrom_succ, hNext, hVisit] at hLeft
      exact ⟨left, hLeft⟩

theorem reachable_evolves {start : Position}
    (hReach : Relation.ReflTransGen (PassStep checks) start position) :
    Evolves Mark.Scheduled start.1 position.1 thread := by
  induction hReach with
  | refl => exact .of_eq rfl
  | @tail middle next _ hStep ih =>
    obtain ⟨target, -, -, hVisit⟩ := hStep
    have hHere : Evolves Mark.Scheduled middle.1 { middle.1 with currentEntry := some target }
        thread := .of_eq rfl
    exact ih.trans (hHere.trans (visit_evolves hVisit))

/-- From the moment the interruption has been performed, the rest of `schedule` leaves what was put
aside alone. -/
theorem schedule_of_performs (h : s.schedule checks = some t) (hPerforms : Performs checks s here done thread) :
    Evolves Mark.Scheduled done t thread := by
  obtain ⟨hReach, -, -, next, hStep⟩ := hPerforms
  obtain ⟨processed, hProcessed, hSelected⟩ := schedule_selects h thread
  obtain ⟨left, hLeft⟩ := processWaitQueueFrom_of_reachable (hReach.tail hStep) hProcessed
  exact (processWaitQueueFrom_evolves hLeft).trans hSelected

theorem restoreInterruptedState_restores {state : ProcessorState} {address : Nat}
    (hFrom : Held (FromRequest request waiter) (ForHandler request) (s.threads thread))
    (hState : Held (WithState state address) (fun _ _ => False) (s.threads thread))
    (h : s.restoreInterruptedState thread = some t) :
    (t.threads thread).cpuState = address ∧ t.cpuStates address = state ∧
      (t.threads thread).waitManager = waiter := by
  obtain ⟨info, hInfo, hWaiter, -⟩ := hFrom.info
  obtain ⟨info', hInfo', hSaved, hAddress⟩ := hState.info
  cases hInfo.symm.trans hInfo'
  unfold restoreInterruptedState at h
  rw [hInfo] at h
  cases h
  refine ⟨?_, ?_, ?_⟩
  · rw [threads_modifyThread_self]
    exact hAddress
  · rw [← hAddress, ← hSaved]
    exact update_self _ _ _
  · rw [threads_modifyThread_self]
    rw [threads_wait, if_pos rfl]
    exact hWaiter

end Perform

section RoundTrip

variable {before begun s called here done t ready after : Scheduler} {thread : Tid}
  {event call : Event} {request : Request} {checks : Tid → Check}
  {cpuStates : Nat → ProcessorState} {userWords : Pid → Nat → Nat}
  {earlier pending handler : List Event}

theorem step_of_call (hCall : call.call s = some (called, checks)) (hStep : Step s call t) :
    called.threads = s.threads ∧ called.schedule checks = some t ∧
      call ≠ .restoreInterruptedState := by
  cases call with
  | schedule checks' =>
    cases hCall
    exact ⟨rfl, hStep, Event.noConfusion⟩
  | save address state checks' =>
    simp only [Event.call] at hCall
    split at hCall
    · next hCurrent =>
        cases hCall
        simp only [Step, execute, save] at hStep
        split at hStep
        · next hSome => cases hCurrent.symm.trans hSome
        · exact ⟨rfl, hStep, Event.noConfusion⟩
    · cases hCall
  | add | wait | irq | raiseSignal | restoreInterruptedState | kill | increaseWaitPriority | store =>
    cases hCall

end RoundTrip

end Kernel.Scheduler
