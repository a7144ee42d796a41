import MeetiX.Kernel.Tasking.SchedulerHistory

/-! What happens to the record of one thread. Whatever an event does, the waiter and the
interruption of a thread change in one of six ways, and an invariant about one thread only has to
be kept by these. -/
namespace Kernel.Scheduler

open Base Function

/-- The thread's record has gone through changes with such marks. -/
def Evolves (allowed : Mark → Prop) (s t : Scheduler) (thread : Tid) : Prop :=
  ∃ marks, Run Change (s.threads thread) marks (t.threads thread) ∧ ∀ mark ∈ marks, allowed mark

section Evolves

variable {s t u : Scheduler} {thread target : Tid} {allowed : Mark → Prop} {mark : Mark}

theorem Evolves.of_eq (h : t.threads thread = s.threads thread) : Evolves allowed s t thread :=
  ⟨[], by rw [h]; exact Run.nil _, by simp⟩

theorem Evolves.trans (h : Evolves allowed s t thread) (hNext : Evolves allowed t u thread) :
    Evolves allowed s u thread := by
  obtain ⟨marks, hRun, hMarks⟩ := h
  obtain ⟨later, hLater, hAllowed⟩ := hNext
  refine ⟨marks ++ later, hRun.append hLater, fun mark hMem => ?_⟩
  exact (List.mem_append.mp hMem).elim (hMarks mark) (hAllowed mark)

theorem Evolves.mono {more : Mark → Prop} (h : Evolves allowed s t thread)
    (hMore : ∀ mark, allowed mark → more mark) : Evolves more s t thread := by
  obtain ⟨marks, hRun, hMarks⟩ := h
  exact ⟨marks, hRun, fun mark hMem => hMore mark (hMarks mark hMem)⟩

theorem Evolves.single (h : Change (s.threads thread) mark (t.threads thread))
    (hMark : allowed mark) : Evolves allowed s t thread :=
  ⟨[mark], Run.single h, by simpa using hMark⟩

theorem Evolves.of_one (target : Tid)
    (hOthers : ∀ other, other ≠ target → t.threads other = s.threads other)
    (h : Change (s.threads target) mark (t.threads target)) (hMark : thread = target → allowed mark) :
    Evolves allowed s t thread := by
  by_cases hEq : thread = target
  · subst hEq
    exact .single h (hMark rfl)
  · exact .of_eq (hOthers thread hEq)

theorem Evolves.modifyThread {change : Thread → Thread}
    (h : Change (s.threads target) mark (change (s.threads target)))
    (hMark : thread = target → allowed mark) :
    Evolves allowed s (s.modifyThread target change) thread := by
  refine .of_one target (fun other hNe => threads_modifyThread_of_ne _ _ _ hNe) ?_ hMark
  rw [threads_modifyThread_self]
  exact h

theorem Evolves.keeps {Inv : Thread → Prop} (h : Evolves allowed s t thread)
    (hChange : ∀ before mark after, Inv before → allowed mark → Change before mark after → Inv after)
    (hInv : Inv (s.threads thread)) : Inv (t.threads thread) := by
  obtain ⟨marks, hRun, hMarks⟩ := h
  refine hRun.invariant_of_mem hInv fun before mark after hMem hBefore hStep => ?_
  exact hChange before mark after hBefore (hMarks mark hMem) hStep

end Evolves

section Operations

variable {s t : Scheduler} {thread target : Tid} {checks : Tid → Check} {allowed : Mark → Prop}
variable {fuel : Nat}

theorem visit_evolves (h : visit checks s target = some t) : Evolves Mark.Scheduled s t thread := by
  cases hAlive : (s.threads target).alive with
  | true =>
    rw [visit_of_alive hAlive] at h
    cases checkWaitingState_checked h with
    | waits hKind hChange => exact .modifyThread hChange fun _ => trivial
    | @woken after _ states words hWaiter hStop hSame hChange hMark =>
      have hChanged : Evolves Mark.Scheduled s (s.modifyThread target fun _ => after) thread :=
        .modifyThread hChange fun _ => hMark
      exact hChanged.trans (.of_eq rfl)
  | false =>
    rw [visit_of_dead hAlive] at h
    cases h
    exact .of_eq (congrFun (threads_checkAliveState s target) thread)

theorem processWaitQueueFrom_evolves {entry : Option Tid}
    (h : processWaitQueueFrom checks fuel s entry = some t) : Evolves Mark.Scheduled s t thread :=
  processWaitQueueFrom_induct (R := fun s t => Evolves Mark.Scheduled s t thread)
    (fun _ _ => .of_eq rfl) visit_evolves .trans h

theorem selectNext_evolves (h : selectNext fuel s = some t) :
    Evolves Mark.Scheduled s t thread := by
  induction fuel generalizing s with
  | zero => cases h
  | succ fuel ih =>
    obtain ⟨target, -, ⟨-, rfl⟩ | ⟨-, rest, -, hThreads, -, h⟩⟩ := selectNext_cases h
    · have hRounds : Evolves Mark.Scheduled s (s.modifyThread target fun thread =>
          { thread with rounds := (thread.rounds + 1) % 2 ^ 64 }) thread :=
        .modifyThread (.same rfl rfl) fun _ => trivial
      exact hRounds.trans (.of_eq rfl)
    · exact .trans (.of_eq (congrFun hThreads thread)) (ih h)

/-- The selection goes on from where the pass has ended. -/
theorem schedule_selects (h : s.schedule checks = some t) (thread : Tid) :
    ∃ processed, s.processWaitQueue checks = some processed ∧
      Evolves Mark.Scheduled processed t thread := by
  unfold schedule at h
  split at h
  · cases h
  · next processed hProcessed =>
      have hBack : Evolves Mark.Scheduled processed { processed with currentEntry := s.currentEntry }
          thread := .of_eq rfl
      exact ⟨processed, hProcessed, hBack.trans (selectNext_evolves h)⟩

theorem schedule_evolves (h : s.schedule checks = some t) : Evolves Mark.Scheduled s t thread := by
  obtain ⟨processed, hProcessed, hSelected⟩ := schedule_selects h thread
  exact (processWaitQueueFrom_evolves hProcessed).trans hSelected

end Operations

section Steps

variable {s t : Scheduler} {thread : Tid} {event : Event}

theorem threads_add (type : ThreadType) (priority : ThreadPriority) (process : Pid) (cpuState : Nat)
    (hOld : thread ≠ s.taskIdCounter) :
    (s.add type priority process cpuState).threads thread = s.threads thread := by
  cases priority <;> exact update_of_ne hOld _ _

/-- What an event does to a thread that exists already. -/
theorem step_evolves (h : s.Queues) (hStep : Step s event t)
    (hKnown : ∀ type priority process cpuState, event = .add type priority process cpuState →
      thread ≠ s.taskIdCounter) : Evolves (event.Marks s thread) s t thread := by
  cases step_effect h hStep with
  | schedule states checks hSchedules hSchedule =>
    have hPushed : Evolves Mark.Scheduled s { s with cpuStates := states } thread := .of_eq rfl
    refine (hPushed.trans (schedule_evolves hSchedule)).mono fun mark hMark => ?_
    cases mark with
    | other => trivial
    | perform => exact hSchedules
    | interrupt request => exact hMark.elim
    | restore => exact hMark.elim
  | block other waiter mark _ hBlocked hMark hChange =>
    refine .of_one other hBlocked.others hChange ?_
    rintro rfl
    exact hMark
  | add type priority process cpuState hEvent _ hAdd =>
    subst hAdd
    exact .of_eq (threads_add type priority process cpuState (hKnown _ _ _ _ hEvent))
  | quiet hQuiet => exact .single (.same (hQuiet.waiter thread) (hQuiet.info thread)) trivial

/-- What the changes of a thread keep, an event keeps, if it also holds of new threads. -/
theorem step_keeps {P : Thread → Prop} (h : s.Queues) (hStep : Step s event t)
    (hNew : ∀ type priority process cpuState, P (Thread.new type priority process cpuState))
    (hChange : ∀ before mark after, P before → event.Marks s thread mark →
      Change before mark after → P after)
    (hBefore : P (s.threads thread)) : P (t.threads thread) := by
  by_cases hAdd : ∃ type priority process cpuState, event = .add type priority process cpuState ∧
      thread = s.taskIdCounter
  · obtain ⟨type, priority, process, cpuState, rfl, rfl⟩ := hAdd
    simp only [Step, execute] at hStep
    split at hStep
    · cases hStep
    · cases hStep
      have hThread : (s.add type priority process cpuState).threads s.taskIdCounter =
          Thread.new type priority process cpuState := by
        cases priority <;> exact update_self _ _ _
      rw [hThread]
      exact hNew type priority process cpuState
  · refine (step_evolves h hStep ?_).keeps hChange hBefore
    rintro type priority process cpuState rfl rfl
    exact hAdd ⟨type, priority, process, cpuState, rfl, rfl⟩

end Steps

section Sound

variable {s t : Scheduler}

/-- A thread waits for its interruption only while it is being interrupted, and such a waiter is
never put aside. -/
structure Sound (thread : Thread) : Prop where
  prepared : ∀ entry callback, thread.waitManager = some (.performInterruption entry callback) →
    thread.interruptionInfo ≠ none
  saved : ∀ info, thread.interruptionInfo = some info →
    ∀ entry callback, info.waitManager ≠ some (.performInterruption entry callback)

/-- The step lemma over all changes of a thread. -/
theorem Sound.change {before after : Thread} {mark : Mark} (h : Sound before)
    (hChange : Change before mark after) : Sound after := by
  cases hChange with
  | same hWaiter hInfo =>
    refine ⟨?_, ?_⟩
    · rw [hWaiter, hInfo]
      exact h.prepared
    · rw [hInfo]
      exact h.saved
  | wait address hNot hWaiter hInfo =>
    refine ⟨?_, ?_⟩
    · rw [hWaiter]
      rintro _ _ ⟨⟩
    · rw [hInfo]
      exact h.saved
  | unwait hObject hWaiter hInfo =>
    refine ⟨?_, ?_⟩
    · rw [hWaiter]
      rintro _ _ ⟨⟩
    · rw [hInfo]
      exact h.saved
  | interrupt request hFree hWaiter hInfo =>
    refine ⟨?_, ?_⟩
    · rw [hInfo]
      rintro _ _ _ ⟨⟩
    · rw [hInfo]
      rintro _ ⟨⟩ entry callback hPerform
      exact h.prepared entry callback hPerform hFree
  | perform state address hPerform hBefore hWaiter hInfo =>
    refine ⟨?_, ?_⟩
    · rw [hWaiter]
      rintro _ _ ⟨⟩
    · rw [hInfo]
      rintro _ ⟨⟩ entry callback
      exact h.saved _ hBefore entry callback
  | restore hBefore hWaiter hInfo =>
    refine ⟨?_, ?_⟩
    · rw [hWaiter]
      exact fun entry callback hPerform => absurd hPerform (h.saved _ hBefore entry callback)
    · rw [hInfo]
      rintro _ ⟨⟩

theorem sound_new (type : ThreadType) (priority : ThreadPriority) (process : Pid) (cpuState : Nat) :
    Sound (Thread.new type priority process cpuState) :=
  ⟨by rintro _ _ ⟨⟩, by rintro _ ⟨⟩⟩

structure Consistent (s : Scheduler) : Prop where
  valid : s.Valid
  sound : ∀ thread, Sound (s.threads thread)

theorem new_consistent (cpuStates : Nat → ProcessorState) (userWords : Pid → Nat → Nat) :
    (new cpuStates userWords).Consistent :=
  ⟨new_valid cpuStates userWords, fun _ => sound_new _ _ _ _⟩

theorem step_consistent {event : Event} (h : s.Consistent) (hStep : Step s event t) :
    t.Consistent := by
  refine ⟨step_valid h.valid hStep, fun thread => ?_⟩
  exact step_keeps h.valid.queues hStep sound_new (fun _ _ _ hBefore _ => hBefore.change)
    (h.sound thread)

theorem run_consistent {cpuStates : Nat → ProcessorState} {userWords : Pid → Nat → Nat}
    {events : List Event} (run : Run Step (new cpuStates userWords) events s) : s.Consistent :=
  run.invariant (new_consistent cpuStates userWords) fun _ _ _ h hStep => step_consistent h hStep

end Sound

end Kernel.Scheduler
