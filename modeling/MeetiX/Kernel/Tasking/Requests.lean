import MeetiX.Base.Liveness
import MeetiX.Kernel.Tasking.HandlerEntry

/-! Which requests and signals are served. The kernel has room for one interruption of a thread: a
request that arrives before the thread has returned from a handler is dropped without a trace. -/
namespace Kernel.Scheduler

open Base List Option

/-- The request whose handler the thread waits for. -/
def pending (thread : Thread) : Option Request :=
  match thread.waitManager, thread.interruptionInfo with
  | some (.performInterruption entry callback), some info =>
    some ⟨info.type, info.handledIrq, info.handledSignal, entry, callback⟩
  | _, _ => none

/-- The request whose handler is entered between two states. -/
def entered (before after : Thread) : Option Request :=
  if pending after = none then pending before else none

/-- The requests for the thread in the first steps of the run. -/
def raisedBy (run : InfiniteRun Step) (thread : Tid) : Nat → List Request
  | 0 => []
  | n + 1 => raisedBy run thread n ++ ((run.labels n).request (run.states n) thread).toList

/-- The requests whose handlers the thread has entered in the first steps of the run. -/
def enteredBy (run : InfiniteRun Step) (thread : Tid) : Nat → List Request
  | 0 => []
  | n + 1 => enteredBy run thread n ++
      (entered ((run.states n).threads thread) ((run.states (n + 1)).threads thread)).toList

section Pending

variable {s t : Scheduler} {thread : Tid} {event : Event} {before after : Thread} {mark : Mark}
  {request : Request}

theorem pending_eq_some : pending before = some request ↔
    before.waitManager = some (.performInterruption request.entry request.callback) ∧
      ∃ info, before.interruptionInfo = some info ∧ info.type = request.type ∧
        info.handledIrq = request.handledIrq ∧ info.handledSignal = request.handledSignal := by
  unfold pending
  constructor
  · intro h
    split at h
    · next entry callback info hWaiter hInfo =>
        cases h
        exact ⟨hWaiter, info, hInfo, rfl, rfl, rfl⟩
    · cases h
  · rintro ⟨hWaiter, info, hInfo, hType, hIrq, hSignal⟩
    rw [hWaiter, hInfo]
    dsimp only
    rw [hType, hIrq, hSignal]

theorem pending_eq_none (h : ∀ entry callback,
    before.waitManager ≠ some (.performInterruption entry callback)) : pending before = none := by
  refine eq_none_iff_forall_ne_some.mpr fun request hSome => ?_
  exact h _ _ (pending_eq_some.mp hSome).1

/-- A request waits for its handler until the pass performs the interruption. -/
theorem pending_change (h : pending before = some request) (hPerform : mark ≠ .perform)
    (hRestore : mark ≠ .restore) (hChange : Change before mark after) :
    pending after = some request := by
  obtain ⟨hWaiter, info, hInfo, hData⟩ := pending_eq_some.mp h
  cases hChange with
  | same hSameWaiter hSameInfo =>
    exact pending_eq_some.mpr ⟨hSameWaiter.trans hWaiter, info, hSameInfo.trans hInfo, hData⟩
  | wait _ hNot => exact absurd hWaiter (hNot _ _)
  | unwait hObject => cases hObject.symm.trans hWaiter
  | interrupt _ hFree => cases hFree.symm.trans hInfo
  | perform => exact absurd rfl hPerform
  | restore => exact absurd rfl hRestore

theorem not_pending_change (hSound : Sound before) (h : pending before = none)
    (hInterrupt : ∀ request, mark ≠ .interrupt request) (hChange : Change before mark after) :
    pending after = none := by
  have hNot : ∀ entry callback,
      before.waitManager ≠ some (.performInterruption entry callback) := by
    intro entry callback hWaiter
    obtain ⟨info, hInfo⟩ := ne_none_iff_exists'.mp (hSound.prepared entry callback hWaiter)
    unfold pending at h
    rw [hWaiter, hInfo] at h
    cases h
  refine pending_eq_none fun entry callback hWaiter => ?_
  cases hChange with
  | same hSame => exact hNot entry callback (hSame.symm.trans hWaiter)
  | wait _ _ hObject => cases hObject.symm.trans hWaiter
  | unwait _ hNone => cases hNone.symm.trans hWaiter
  | interrupt request => exact hInterrupt request rfl
  | perform _ _ _ _ hNone => cases hNone.symm.trans hWaiter
  | restore hBefore hSame => exact hSound.saved _ hBefore entry callback (hSame.symm.trans hWaiter)

structure NotPending (thread : Thread) : Prop where
  sound : Sound thread
  free : pending thread = none

theorem not_pending_evolves {allowed : Mark → Prop} (hEvolves : Evolves allowed s t thread)
    (hAllowed : ∀ request, ¬allowed (.interrupt request)) (hSound : Sound (s.threads thread))
    (h : pending (s.threads thread) = none) : pending (t.threads thread) = none := by
  have hFree : NotPending (t.threads thread) := by
    refine hEvolves.keeps (fun before mark after hBefore hMark hChange => ?_) ⟨hSound, h⟩
    refine ⟨hBefore.sound.change hChange,
      not_pending_change hBefore.sound hBefore.free (fun request hEq => ?_) hChange⟩
    exact hAllowed request (hEq ▸ hMark)
  exact hFree.free

variable (h : s.Valid) (hQueued : thread ∈ s.runQueue ∨ thread ∈ s.waitQueue)

include h hQueued

theorem not_current_of_pending (hPending : pending (s.threads thread) = some request) :
    thread ∈ s.waitQueue ∧ s.currentEntry ≠ some thread := by
  have hWaiter := (pending_eq_some.mp hPending).1
  have hNotRun : thread ∉ s.runQueue := by
    intro hMem
    cases (h.queues.runnable thread hMem).symm.trans hWaiter
  have hWaits := hQueued.resolve_left hNotRun
  refine ⟨hWaits, fun hCurrent => ?_⟩
  rcases h.current thread hCurrent with hMem | hIdle
  · exact hNotRun hMem
  · exact (h.queues.idle thread hIdle).2 hWaits

/-- Nothing but a call of `schedule` ends the waiting for the handler. -/
theorem pending_step (hStep : Step s event t) (hEvent : ¬event.Schedules s)
    (hPending : pending (s.threads thread) = some request) :
    pending (t.threads thread) = some request := by
  obtain ⟨hWaits, hNotCurrent⟩ := not_current_of_pending h hQueued hPending
  have hKnown : thread ≠ s.taskIdCounter := Int.ne_of_lt (h.queues.wait_fresh thread hWaits)
  have hEvolves : Evolves (event.Marks s thread) s t thread :=
    step_evolves h.queues hStep fun _ _ _ _ _ => hKnown
  refine hEvolves.keeps (fun before mark after hBefore hMark => pending_change hBefore ?_ ?_) hPending
  · rintro rfl
    exact hEvent hMark
  · rintro rfl
    exact hNotCurrent hMark.2

end Pending

section Pass

variable {s t u : Scheduler} {thread target : Tid} {checks : Tid → Check} {request : Request}
variable {fuel : Nat}

theorem processWaitQueueFrom_of_not_member (h : ¬s.Member thread) :
    processWaitQueueFrom checks fuel s (some thread) = none := by
  cases fuel with
  | zero => rfl
  | succ fuel =>
    obtain ⟨hRun, hWait, hIdle⟩ := not_or.mp h |>.imp_right not_or.mp
    rw [processWaitQueueFrom_succ, nextEntry, if_neg hRun, if_neg hWait, if_neg hIdle]
    rfl

/-- The pass comes to every thread ahead of it that is still in a queue at the end. -/
theorem pass_reaches {before suffix : List Tid} (h : Passing s before suffix t)
    (hAhead : thread ∈ suffix)
    (hPass : processWaitQueueFrom checks fuel t (s.spared before suffix).head? = some u)
    (hStays : thread ∈ u.runQueue ∨ thread ∈ u.waitQueue) :
    ∃ here done next,
      Relation.ReflTransGen (PassStep checks) (t, (s.spared before suffix).head?) (here, some thread) ∧
      here.threads thread = s.threads thread ∧ PassStep checks (here, some thread) (done, next) := by
  induction suffix generalizing before t fuel with
  | nil => cases hAhead
  | cons first suffix ih =>
    by_cases hDoomed : s.Doomed before first
    · rw [spared_cons_of_doomed suffix hDoomed] at hPass ⊢
      refine ih (h.next (h.skip hDoomed)) ((mem_cons.mp hAhead).resolve_left ?_) hPass
      rintro rfl
      exact h.left thread ((wakes_processWaitQueueFrom hPass).queued hStays) hDoomed
    · obtain ⟨v, hStep, hPassing⟩ := h.step checks hDoomed
      rw [spared_cons suffix hDoomed, head?_cons] at hPass ⊢
      by_cases hHere : thread = first
      · subst hHere
        exact ⟨t, v, _, .refl, h.ahead thread hAhead, hStep⟩
      · cases fuel with
        | zero => cases hPass
        | succ fuel =>
          rw [hStep.processWaitQueueFrom] at hPass
          -- the entry that comes next is still there, or the pass could not go on
          rcases spared_head_after hPassing with ⟨-, hSame⟩ | ⟨next, hFirst, -, -, hGone⟩
          · rw [← hSame] at hPass hStep
            obtain ⟨here, done, next, hReach, hRecord, hLast⟩ :=
              ih hPassing ((mem_cons.mp hAhead).resolve_left hHere) hPass
            exact ⟨here, done, next, .head hStep hReach, hRecord, hLast⟩
          · rw [hFirst, processWaitQueueFrom_of_not_member hGone] at hPass
            cases hPass

/-- A call of `schedule` performs the interruption of every live thread that waits for its handler
and is still in a queue afterwards. -/
theorem schedule_performs (h : s.Consistent) (hSchedule : s.schedule checks = some t)
    (hAlive : (s.threads thread).alive = true) (hWaits : thread ∈ s.waitQueue)
    (hStays : thread ∈ t.runQueue ∨ thread ∈ t.waitQueue)
    (hPending : pending (s.threads thread) = some request) (hType : request.type ≠ .none) :
    (∃ here done, Performs checks s here done thread ∧ StartsHandler done thread request) ∧
      pending (t.threads thread) = none ∧ (t.threads thread).interruptionInfo ≠ none := by
  obtain ⟨hWaiter, info, hInfo, hData⟩ := pending_eq_some.mp hPending
  have hStart : Passing s [] s.waitQueue s :=
    ⟨.start h.valid.queues, h.valid.queues, rfl, fun other _ => (h.sound other).prepared⟩
  obtain ⟨processed, hProcessed, hNotWaiting, hSelected⟩ := schedule_parts h.valid hSchedule
  have hLeft : thread ∈ processed.runQueue ∨ thread ∈ processed.waitQueue :=
    (selectNext_spec hNotWaiting hSelected).1.queued hStays
  obtain ⟨here, done, next, hReach, hSame, hStep⟩ :=
    pass_reaches hStart hWaits (by rw [spared_nil]; exact hProcessed) hLeft
  rw [spared_nil] at hReach
  have hPerforms : Performs checks s here done thread := by
    refine ⟨hReach, ?_, ⟨_, _, (congrArg Thread.waitManager hSame).trans hWaiter⟩, next, hStep⟩
    rw [hSame]
    exact hAlive
  have hRest := schedule_of_performs hSchedule hPerforms
  obtain ⟨target, hTarget, -, hVisit⟩ := hStep
  cases hTarget
  have hInfoHere : (here.threads thread).interruptionInfo = some info := by
    rw [hSame]
    exact hInfo
  obtain ⟨hStarts, hAside⟩ := visit_starts (s := { here with currentEntry := some thread })
    (by rw [hSame]; exact hAlive)
    ((congrArg Thread.waitManager hSame).trans hWaiter) hInfoHere ⟨Eq.refl info.waitManager, hData⟩ hType
    hVisit
  have hHeld := hAside.evolves (fun _ _ _ _ _ _ hFalse => hFalse.elim) hRest fun hMark => hMark
  obtain ⟨after, hAfter, -⟩ := hHeld.info
  refine ⟨⟨here, done, hPerforms, hStarts⟩, pending_eq_none hHeld.performing, ?_⟩
  rw [hAfter]
  exact some_ne_none _

end Pass

/-- The event calls `schedule`, and its pass enters the handler of the request. -/
def Enters (s : Scheduler) (event : Event) (thread : Tid) (request : Request) : Prop :=
  ∃ called checks here done, event.call s = some (called, checks) ∧
    Performs checks called here done thread ∧ StartsHandler done thread request

section Outcome

variable {s t : Scheduler} {thread : Tid} {event : Event}

/-- What an event is for a live thread with its requests. -/
inductive Outcome (s : Scheduler) (event : Event) (t : Scheduler) (thread : Tid) : Prop where
  | arrives (request : Request) (hRequest : event.request s thread = some request)
      (hFree : (s.threads thread).interruptionInfo = none)
      (hBefore : pending (s.threads thread) = none)
      (hAfter : pending (t.threads thread) = some request)
  | dropped (request : Request) (hRequest : event.request s thread = some request)
      (hBusy : (s.threads thread).interruptionInfo ≠ none)
      (hSame : pending (t.threads thread) = pending (s.threads thread))
  | keeps (hRequest : event.request s thread = none)
      (hSame : pending (t.threads thread) = pending (s.threads thread))
      (hSchedules : event.Schedules s → pending (s.threads thread) = none)
  | enters (request : Request) (hRequest : event.request s thread = none)
      (hBefore : pending (s.threads thread) = some request)
      (hAfter : pending (t.threads thread) = none) (hEnters : Enters s event thread request)

theorem call_of_schedules (h : event.Schedules s) :
    ∃ states checks, event.call s = some ({ s with cpuStates := states }, checks) := by
  cases event with
  | schedule checks => exact ⟨s.cpuStates, checks, rfl⟩
  | save address state checks => exact ⟨_, checks, if_pos h⟩
  | add | wait | irq | raiseSignal | restoreInterruptedState | kill | increaseWaitPriority | store =>
    exact h.elim

/-- An event raises a request, drops it, keeps the pending one or enters its handler. -/
theorem step_outcome (h : s.Consistent) (hStep : Step s event t)
    (hAlive : (s.threads thread).alive = true)
    (hBefore : thread ∈ s.runQueue ∨ thread ∈ s.waitQueue)
    (hAfter : thread ∈ t.runQueue ∨ thread ∈ t.waitQueue)
    (hTyped : ∀ request, pending (s.threads thread) = some request → request.type ≠ .none) :
    Outcome s event t thread := by
  have hKnown : thread ≠ s.taskIdCounter := Int.ne_of_lt
    (hBefore.elim (h.valid.queues.run_fresh thread) (h.valid.queues.wait_fresh thread))
  cases hRequest : event.request s thread with
  | some request =>
    rcases (step_request h.valid.queues hStep hRequest).2 with ⟨hBusy, rfl⟩ | hChange
    · exact .dropped request hRequest hBusy rfl
    · cases hChange with
      | interrupt _ hFree hWaiter hInfo =>
        refine .arrives request hRequest hFree ?_ ?_
        · unfold pending
          rw [hFree]
          split
          · next hSome => cases hSome
          · rfl
        · exact pending_eq_some.mpr ⟨hWaiter, _, hInfo, rfl, rfl, rfl⟩
  | none =>
    cases hPending : pending (s.threads thread) with
    | none =>
      have hEvolves : Evolves (event.Marks s thread) s t thread :=
        step_evolves h.valid.queues hStep fun _ _ _ _ _ => hKnown
      refine .keeps hRequest ((not_pending_evolves hEvolves (fun request hMark => ?_)
        (h.sound thread) hPending).trans hPending.symm) fun _ => hPending
      cases hRequest.symm.trans hMark
    | some request =>
      by_cases hEvent : event.Schedules s
      · obtain ⟨states, checks, hCall⟩ := call_of_schedules hEvent
        obtain ⟨-, hSchedule, -⟩ := step_of_call hCall hStep
        obtain ⟨⟨here, done, hPerforms, hStarts⟩, hGone, -⟩ := schedule_performs
          ⟨h.valid.withStates states, h.sound⟩ hSchedule hAlive
          (not_current_of_pending h.valid hBefore hPending).1 hAfter hPending
          (hTyped request hPending)
        exact .enters request hRequest hPending hGone
          ⟨_, checks, here, done, hCall, hPerforms, hStarts⟩
      · exact .keeps hRequest ((pending_step h.valid hBefore hStep hEvent hPending).trans
          hPending.symm) fun hSchedules => absurd hSchedules hEvent

theorem Outcome.typed (h : Outcome s event t thread)
    (hTyped : ∀ request, pending (s.threads thread) = some request → request.type ≠ .none)
    (request : Request) (hPending : pending (t.threads thread) = some request) :
    request.type ≠ .none := by
  cases h with
  | arrives arrived hRequest _ _ hAfter =>
    cases hAfter.symm.trans hPending
    exact request_type hRequest
  | dropped _ _ _ hSame => exact hTyped request (hSame.symm.trans hPending)
  | keeps _ hSame => exact hTyped request (hSame.symm.trans hPending)
  | enters _ _ _ hAfter => cases hAfter.symm.trans hPending

theorem entered_of_same (hSame : pending (t.threads thread) = pending (s.threads thread)) :
    entered (s.threads thread) (t.threads thread) = none := by
  unfold entered
  rw [hSame]
  split
  · next hNone => exact hNone
  · rfl

end Outcome

section Runs

variable {run : InfiniteRun Step} {thread : Tid}
variable {request : Request} {n : Nat}

/-- A live thread that stays in the queues, while `schedule` is called for ever; at the start it is
not being interrupted. -/
structure Watched (run : InfiniteRun Step) (thread : Tid) : Prop where
  consistent : (run.states 0).Consistent
  free : ((run.states 0).threads thread).interruptionInfo = none
  alive : ∀ n, ((run.states n).threads thread).alive = true
  queued : ∀ n, thread ∈ (run.states n).runQueue ∨ thread ∈ (run.states n).waitQueue
  schedules : InfinitelyOften fun n => (run.labels n).Schedules (run.states n)

section

variable (h : Watched run thread)

include h

theorem Watched.not_pending : pending ((run.states 0).threads thread) = none := by
  refine pending_eq_none fun entry callback hWaiter => ?_
  exact (h.consistent.sound thread).prepared entry callback hWaiter h.free

theorem Watched.outcome (n : Nat) :
    Outcome (run.states n) (run.labels n) (run.states (n + 1)) thread := by
  have hConsistent : ∀ n, (run.states n).Consistent :=
    run.invariant h.consistent fun _ _ _ hState hStep => step_consistent hState hStep
  have hNext : ∀ n, (∀ request, pending ((run.states n).threads thread) = some request →
      request.type ≠ .none) → Outcome (run.states n) (run.labels n) (run.states (n + 1)) thread :=
    fun n => step_outcome (hConsistent n) (run.steps n) (h.alive n) (h.queued n) (h.queued (n + 1))
  refine hNext n ?_
  induction n with
  | zero =>
    intro request hPending
    cases h.not_pending.symm.trans hPending
  | succ n ih => exact (hNext n ih).typed ih

/-- While no request is dropped, those that have arrived are those whose handlers have been entered
and perhaps one that waits for its handler. -/
theorem Watched.served
    (hApart : ∀ n request, (run.labels n).request (run.states n) thread = some request →
      ((run.states n).threads thread).interruptionInfo = none) (n : Nat) :
    raisedBy run thread n =
      enteredBy run thread n ++ (pending ((run.states n).threads thread)).toList := by
  induction n with
  | zero =>
    rw [h.not_pending]
    rfl
  | succ n ih =>
    rw [raisedBy, enteredBy, ih]
    cases h.outcome n with
    | arrives request hRequest _ hBefore hAfter =>
      rw [hRequest, hBefore, entered, hAfter, if_neg (some_ne_none _)]
    | dropped request hRequest hBusy => exact absurd (hApart n request hRequest) hBusy
    | keeps hRequest hSame =>
      rw [hRequest, entered_of_same hSame, hSame, toList_none, append_nil,
        append_nil]
    | enters request hRequest hBefore hAfter =>
      rw [hRequest, entered, if_pos hAfter, hAfter]

/-- A dropped request is missing from then on. -/
theorem Watched.missing {first : Nat}
    (hRequest : (run.labels first).request (run.states first) thread = some request)
    (hBusy : ((run.states first).threads thread).interruptionInfo ≠ none) (n : Nat) :
    (enteredBy run thread n).length +
        (pending ((run.states n).threads thread)).toList.length +
        (if first < n then 1 else 0) ≤ (raisedBy run thread n).length := by
  induction n with
  | zero =>
    rw [h.not_pending]
    simp [enteredBy]
  | succ n ih =>
    have hLater : (if first < n + 1 then 1 else 0) ≤
        (if first < n then 1 else 0) + (if first = n then 1 else 0) := by
      split <;> split <;> split <;> omega
    rw [raisedBy, enteredBy, length_append, length_append]
    cases h.outcome n with
    | arrives request' hRequest' hFree hBefore hAfter =>
      have hOther : first ≠ n := by
        rintro rfl
        exact hBusy hFree
      rw [if_neg hOther] at hLater
      rw [hBefore] at ih
      rw [hRequest', entered, hAfter, if_neg (some_ne_none _)]
      omega
    | dropped request' hRequest' _ hSame =>
      have hOne : (if first = n then 1 else 0) ≤ 1 := by split <;> omega
      rw [hRequest', entered_of_same hSame, hSame]
      simp only [toList_some, toList_none, length_cons] at ih ⊢
      omega
    | keeps hRequest' hSame =>
      have hOther : first ≠ n := by
        rintro rfl
        cases hRequest.symm.trans hRequest'
      rw [if_neg hOther] at hLater
      rw [hRequest', entered_of_same hSame, hSame]
      omega
    | enters request' hRequest' hBefore hAfter =>
      have hOther : first ≠ n := by
        rintro rfl
        cases hRequest.symm.trans hRequest'
      rw [if_neg hOther] at hLater
      rw [hBefore] at ih
      rw [hRequest', entered, if_pos hAfter, hBefore, hAfter]
      omega

theorem Watched.enters
    (hEntered : entered ((run.states n).threads thread) ((run.states (n + 1)).threads thread) =
      some request) : Enters (run.states n) (run.labels n) thread request := by
  cases h.outcome n with
  | arrives _ _ _ _ hAfter =>
    rw [entered, hAfter] at hEntered
    cases hEntered
  | dropped _ _ _ hSame => cases (entered_of_same hSame).symm.trans hEntered
  | keeps _ hSame => cases (entered_of_same hSame).symm.trans hEntered
  | enters request' _ hBefore hAfter hEnters =>
    rw [entered, if_pos hAfter] at hEntered
    cases hBefore.symm.trans hEntered
    exact hEnters

end

theorem mem_enteredBy (h : request ∈ enteredBy run thread n) :
    ∃ k, pending ((run.states k).threads thread) = some request := by
  induction n with
  | zero => cases h
  | succ n ih =>
    rcases mem_append.mp h with hMem | hMem
    · exact ih hMem
    · have hEntered := mem_toList.mp hMem
      unfold entered at hEntered
      split at hEntered
      · exact ⟨n, hEntered⟩
      · cases hEntered

theorem Watched.not_pending_after (h : Watched run thread)
    (hEvent : (run.labels n).Schedules (run.states n)) :
    pending ((run.states n).threads thread) = none ∨
      pending ((run.states (n + 1)).threads thread) = none := by
  have hNoRequest : ∀ request, (run.labels n).request (run.states n) thread ≠ some request := by
    intro request hRequest
    cases hLabel : run.labels n with
    | irq | raiseSignal =>
      rw [hLabel] at hEvent
      exact hEvent
    | add | save | schedule | wait | restoreInterruptedState | kill | increaseWaitPriority | store =>
      rw [hLabel] at hRequest
      cases hRequest
  cases h.outcome n with
  | arrives request hRequest => exact absurd hRequest (hNoRequest request)
  | dropped request hRequest => exact absurd hRequest (hNoRequest request)
  | keeps _ _ hSchedules => exact .inl (hSchedules hEvent)
  | enters _ _ _ hAfter => exact .inr hAfter

/-- Every entry of a handler starts it with the data of its request. Again and again all requests
so far have been served, in their order and each one once, exactly if none of them arrives while
the thread is being interrupted. -/
theorem requests_served_iff {cpuStates : Nat → ProcessorState} {userWords : Pid → Nat → Nat}
    {earlier : List Event} (hStart : Run Step (new cpuStates userWords) earlier (run.states 0))
    (hFree : ((run.states 0).threads thread).interruptionInfo = none)
    (hAlive : ∀ n, ((run.states n).threads thread).alive = true)
    (hQueued : ∀ n, thread ∈ (run.states n).runQueue ∨ thread ∈ (run.states n).waitQueue)
    (hSchedules : InfinitelyOften fun n => (run.labels n).Schedules (run.states n)) :
    (∀ n request, entered ((run.states n).threads thread) ((run.states (n + 1)).threads thread) =
      some request → Enters (run.states n) (run.labels n) thread request) ∧
    ((InfinitelyOften fun n => enteredBy run thread n = raisedBy run thread n) ↔
      ∀ n request, (run.labels n).request (run.states n) thread = some request →
        ((run.states n).threads thread).interruptionInfo = none) := by
  have h : Watched run thread := ⟨run_consistent hStart, hFree, hAlive, hQueued, hSchedules⟩
  refine ⟨fun n request => h.enters, fun hServed n request hRequest => ?_, fun hApart n => ?_⟩
  · by_contra hBusy
    obtain ⟨m, hLater, hEqual⟩ := hServed (n + 1)
    have hMissing := h.missing hRequest hBusy m
    rw [hEqual, if_pos (Nat.lt_of_succ_le hLater)] at hMissing
    omega
  · have hEqual : ∀ m, pending ((run.states m).threads thread) = none →
        enteredBy run thread m = raisedBy run thread m := by
      intro m hNone
      rw [h.served hApart m, hNone, toList_none, append_nil]
    obtain ⟨m, hLater, hEvent⟩ := hSchedules n
    rcases h.not_pending_after hEvent with hNone | hNone
    · exact ⟨m, hLater, hEqual m hNone⟩
    · exact ⟨m + 1, Nat.le_succ_of_le hLater, hEqual (m + 1) hNone⟩

end Runs

section Examples

/-- A thread waits for an object, and there is nothing to run but the idle thread. -/
structure Resting (s : Scheduler) : Prop where
  valid : s.Valid
  run : s.runQueue = []
  wait : s.waitQueue = [1]
  idle : s.idleEntry = some 0
  idleThread : (s.threads 0).alive = true ∧ (s.threads 0).waitManager = none
  alive : (s.threads 1).alive = true
  waiter : (s.threads 1).waitManager = some (.object 5)
  free : (s.threads 1).interruptionInfo = none

variable {events : List Event} {run : InfiniteRun Step}

theorem Resting.pass {s : Scheduler} (h : Resting s) : ∃ t, Step s pass t ∧ Resting t := by
  have hResult : ∃ t, s.schedule (fun _ => .wait) = some t ∧ t.runQueue = [] ∧ t.waitQueue = [1] ∧
      t.idleEntry = some 0 ∧ (t.threads 0).waitManager = none ∧
      (t.threads 1).waitManager = some (.object 5) ∧ (t.threads 1).interruptionInfo = none := by
    have hCurrent : s.currentEntry = none ∨ s.currentEntry = some 0 := by
      cases hEntry : s.currentEntry with
      | none => exact .inl rfl
      | some current =>
        rcases h.valid.current current hEntry with hMem | hIdle
        · rw [h.run] at hMem
          cases hMem
        · exact .inr (hIdle.symm.trans h.idle)
    rcases hCurrent with hCurrent | hCurrent <;>
      simp [Scheduler.schedule, processWaitQueue, h.wait, processWaitQueueFrom, nextEntry, h.run,
        checkAliveState, h.alive, checkWaitingState, h.waiter, selectNext, nextCandidate, hCurrent,
        h.idle, h.idleThread, finishSwitch, threads_modifyThread, h.free]
  obtain ⟨t, hStep, hRun, hWait, hIdle, hIdleWaiter, hWaiter, hFree⟩ := hResult
  obtain ⟨hWakes, hValid, -⟩ := schedule_spec h.valid hStep
  exact ⟨t, hStep, hValid, hRun, hWait, hIdle, ⟨(hWakes.alive 0).trans h.idleThread.1, hIdleWaiter⟩,
    (hWakes.alive 1).trans h.alive, hWaiter, hFree⟩

/-- The events happen one after the other, and then `schedule` is called for ever. -/
def thenRests (events : List Event) (n : Nat) : Event := (events[n]?).getD pass

theorem step_thenRests
    (h : ((waitingThread ++ events).foldlM execute (new default default)).isSome) {n : Nat}
    (hLess : n < events.length) : Step (reached (waitingThread ++ events.take n))
      (thenRests events n) (reached (waitingThread ++ events.take (n + 1))) := by
  have hTake : waitingThread ++ events.take (n + 1) =
      waitingThread ++ events.take n ++ [thenRests events n] := by
    rw [take_add_one, thenRests, getElem?_eq_getElem hLess]
    rfl
  rw [hTake]
  refine step_reached (events.drop (n + 1)) ?_
  rwa [append_cons, ← hTake, append_assoc, take_append_drop]

structure EndsResting (events : List Event) (run : InfiniteRun Step) : Prop where
  labels : run.labels = thenRests events
  states : ∀ n ≤ events.length, run.states n = reached (waitingThread ++ events.take n)
  rests : ∀ n, events.length ≤ n → Resting (run.states n)

theorem exists_endsResting
    (hEvents : ((waitingThread ++ events).foldlM execute (new default default)).isSome)
    (hRests : Resting (reached (waitingThread ++ events))) :
    ∃ run : InfiniteRun Step, EndsResting events run := by
  let Inv : Nat → Scheduler → Prop := fun n s =>
    (n ≤ events.length → s = reached (waitingThread ++ events.take n)) ∧
      (events.length ≤ n → Resting s)
  have hReached : ∀ n ≤ events.length, Inv n (reached (waitingThread ++ events.take n)) := by
    refine fun n hLe => ⟨fun _ => rfl, fun hGe => ?_⟩
    rw [take_of_length_le hGe]
    exact hRests
  have hProgress : ∀ n s, Inv n s → ∃ t, Step s (thenRests events n) t ∧ Inv (n + 1) t := by
    rintro n s ⟨hEarly, hLate⟩
    by_cases hLess : n < events.length
    · rw [hEarly (Nat.le_of_lt hLess)]
      exact ⟨_, step_thenRests hEvents hLess, hReached (n + 1) hLess⟩
    · obtain ⟨t, hStep, hNext⟩ := (hLate (Nat.le_of_not_lt hLess)).pass
      refine ⟨t, ?_, fun hLe => absurd hLe (by omega), fun _ => hNext⟩
      rw [thenRests, getElem?_eq_none (Nat.le_of_not_lt hLess)]
      exact hStep
  obtain ⟨run, -, hLabels, hInv⟩ := InfiniteRun.of_progress Inv (thenRests events)
    (hReached 0 (Nat.zero_le _)) hProgress
  exact ⟨run, hLabels, fun n => (hInv n).1, fun n => (hInv n).2⟩

theorem EndsResting.start (h : EndsResting events run) : run.states 0 = reached waitingThread :=
  h.states 0 (Nat.zero_le _)

theorem EndsResting.begins (h : EndsResting events run) :
    Run Step (new default default) waitingThread (run.states 0) := by
  rw [h.start]
  exact run_replay (by rfl)

theorem EndsResting.schedules (h : EndsResting events run) :
    InfinitelyOften fun n => (run.labels n).Schedules (run.states n) := by
  intro n
  have hPass : thenRests events (n + events.length) = pass := by
    rw [thenRests, getElem?_eq_none (Nat.le_add_left _ _)]
    rfl
  refine ⟨n + events.length, Nat.le_add_right _ _, ?_⟩
  dsimp only
  rw [h.labels, hPass]
  trivial

theorem EndsResting.stays (h : EndsResting events run) (hStays : ∀ n ≤ events.length,
      ((reached (waitingThread ++ events.take n)).threads 1).alive = true ∧
        (1 ∈ (reached (waitingThread ++ events.take n)).runQueue ∨
          1 ∈ (reached (waitingThread ++ events.take n)).waitQueue)) (n : Nat) :
    ((run.states n).threads 1).alive = true ∧
      (1 ∈ (run.states n).runQueue ∨ 1 ∈ (run.states n).waitQueue) := by
  rcases Nat.le_total n events.length with hLe | hGe
  · rw [h.states n hLe]
    exact hStays n hLe
  · have hRest := h.rests n hGe
    rw [hRest.wait]
    exact ⟨hRest.alive, .inr (mem_singleton_self _)⟩

/-- A request is served and the thread returns, and then another one. -/
def oneByOne : List Event :=
  [request, pass, .restoreInterruptedState, .irq 1 0x1000 10 0x2000, pass, .restoreInterruptedState]

theorem requests_served_iff_one_by_one :
    ∃ run : InfiniteRun Step, Run Step (new default default) waitingThread (run.states 0) ∧
      raisedBy run 1 4 = [⟨.irq, 9, 0, 0x1000, 0x2000⟩, ⟨.irq, 10, 0, 0x1000, 0x2000⟩] ∧
      InfinitelyOften fun n => enteredBy run 1 n = raisedBy run 1 n := by
  obtain ⟨run, h⟩ := exists_endsResting (by rfl)
    (⟨run_valid (run_replay (by rfl)), rfl, rfl, rfl, ⟨rfl, rfl⟩, rfl, rfl, rfl⟩ :
      Resting (reached (waitingThread ++ oneByOne)))
  have hStays := h.stays (by decide)
  refine ⟨run, h.begins, ?_, (requests_served_iff h.begins ?_ (fun n => (hStays n).1)
    (fun n => (hStays n).2) h.schedules).2.mpr fun n arrived hRequest => ?_⟩
  · simp only [raisedBy, h.labels, h.states 0 (by decide), h.states 1 (by decide),
      h.states 2 (by decide), h.states 3 (by decide)]
    rfl
  · rw [h.start]
    rfl
  · rw [h.labels] at hRequest
    match n with
    | 0 =>
      rw [h.start]
      rfl
    | 3 =>
      rw [h.states 3 (by decide)]
      rfl
    | 1 => cases hRequest
    | 2 => cases hRequest
    | 4 => cases hRequest
    | 5 => cases hRequest
    | n + 6 => cases hRequest

/-- A second request arrives before the handler of the first one has been entered. -/
def twoRequests : List Event :=
  [request, .irq 1 0x1000 10 0x2000, pass, .restoreInterruptedState]

/-- The thread returns from the handler and stays alive, `schedule` is called for ever, and the
second request is never served. -/
theorem second_request_dropped :
    ∃ run : InfiniteRun Step, Run Step (new default default) waitingThread (run.states 0) ∧
      run.labels 3 = .restoreInterruptedState ∧
      (∀ n, ((run.states n).threads 1).alive = true ∧
        (1 ∈ (run.states n).runQueue ∨ 1 ∈ (run.states n).waitQueue)) ∧
      (InfinitelyOften fun n => (run.labels n).Schedules (run.states n)) ∧
      raisedBy run 1 2 = [⟨.irq, 9, 0, 0x1000, 0x2000⟩, ⟨.irq, 10, 0, 0x1000, 0x2000⟩] ∧
      ∀ n, ⟨.irq, 10, 0, 0x1000, 0x2000⟩ ∉ enteredBy run 1 n := by
  obtain ⟨run, h⟩ := exists_endsResting (by rfl)
    (⟨run_valid (run_replay (by rfl)), rfl, rfl, rfl, ⟨rfl, rfl⟩, rfl, rfl, rfl⟩ :
      Resting (reached (waitingThread ++ twoRequests)))
  have hNever : ∀ k ≤ twoRequests.length,
      pending ((reached (waitingThread ++ twoRequests.take k)).threads 1) ≠
        some ⟨.irq, 10, 0, 0x1000, 0x2000⟩ := by decide
  refine ⟨run, h.begins, ?_, h.stays (by decide), h.schedules, ?_, fun n => ?_⟩
  · rw [h.labels]
    rfl
  · rw [raisedBy, raisedBy, h.start, h.states 1 (by decide), h.labels]
    rfl
  · intro hEntered
    obtain ⟨k, hPending⟩ := mem_enteredBy hEntered
    rcases Nat.le_total k twoRequests.length with hLe | hGe
    · rw [h.states k hLe] at hPending
      exact absurd hPending (hNever k hLe)
    · have hNone : pending ((run.states k).threads 1) = none := by
        refine pending_eq_none fun entry callback hWaiter => ?_
        cases (h.rests k hGe).waiter.symm.trans hWaiter
      cases hNone.symm.trans hPending

end Examples

end Kernel.Scheduler
