import MeetiX.Kernel.Tasking.Scheduler

/-! The two queues of the scheduler. A thread has one entry at most, and no thread in the run
queue has a waiter. A pass only takes entries out of the queues and puts woken threads in front of
the run queue. -/
namespace Kernel.Scheduler

open Base Function List Option

structure Queues (s : Scheduler) : Prop where
  run_nodup : s.runQueue.Nodup
  wait_nodup : s.waitQueue.Nodup
  apart : ∀ thread ∈ s.runQueue, thread ∉ s.waitQueue
  idle : ∀ thread, s.idleEntry = some thread → thread ∉ s.runQueue ∧ thread ∉ s.waitQueue
  run_fresh : ∀ thread ∈ s.runQueue, thread < s.taskIdCounter
  wait_fresh : ∀ thread ∈ s.waitQueue, thread < s.taskIdCounter
  idle_fresh : ∀ thread, s.idleEntry = some thread → thread < s.taskIdCounter
  runnable : ∀ thread ∈ s.runQueue, (s.threads thread).waitManager = none

section Fields

variable (s : Scheduler) (thread : Tid) (change : Thread → Thread)

@[simp] theorem runQueue_modifyThread : (s.modifyThread thread change).runQueue = s.runQueue := rfl

@[simp] theorem waitQueue_modifyThread :
    (s.modifyThread thread change).waitQueue = s.waitQueue := rfl

@[simp] theorem idleEntry_modifyThread :
    (s.modifyThread thread change).idleEntry = s.idleEntry := rfl

@[simp] theorem currentEntry_modifyThread :
    (s.modifyThread thread change).currentEntry = s.currentEntry := rfl

theorem threads_modifyThread (other : Tid) : (s.modifyThread thread change).threads other =
      if other = thread then change (s.threads thread) else s.threads other :=
  Function.update_apply _ _ _ _

@[simp] theorem threads_modifyThread_self :
    (s.modifyThread thread change).threads thread = change (s.threads thread) := by
  simp [threads_modifyThread]

theorem threads_modifyThread_of_ne {other : Tid} (h : other ≠ thread) :
    (s.modifyThread thread change).threads other = s.threads other := by
  simp [threads_modifyThread, h]

theorem waitManager_clearWaiter : ((s.clearWaiter thread).threads thread).waitManager = none := by
  simp [clearWaiter]

theorem threads_moveToWaitQueue : (s.moveToWaitQueue thread).threads = s.threads := by
  unfold moveToWaitQueue
  split <;> rfl

end Fields

section Queues

variable {s t : Scheduler} {run wait : List Tid}

theorem new_queues (cpuStates : Nat → ProcessorState) (userWords : Pid → Nat → Nat) :
    (new cpuStates userWords).Queues where
  run_nodup := nodup_nil
  wait_nodup := nodup_nil
  apart := by simp [new]
  idle := by simp [new]
  run_fresh := by simp [new]
  wait_fresh := by simp [new]
  idle_fresh := by simp [new]
  runnable := by simp [new]

/-- The threads in the queues have been there before, each one in one place. -/
theorem Queues.within (h : s.Queues) (hRun : t.runQueue.Nodup)
    (hWait : t.waitQueue.Nodup) (hApart : ∀ thread ∈ t.runQueue, thread ∉ t.waitQueue)
    (hOld : ∀ thread, thread ∈ t.runQueue ∨ thread ∈ t.waitQueue →
      thread ∈ s.runQueue ∨ thread ∈ s.waitQueue)
    (hIdle : t.idleEntry = s.idleEntry) (hCounter : t.taskIdCounter = s.taskIdCounter)
    (hRunnable : ∀ thread ∈ t.runQueue, (t.threads thread).waitManager = none) : t.Queues := by
  have hOut : ∀ thread, t.idleEntry = some thread →
      ¬(thread ∈ t.runQueue ∨ thread ∈ t.waitQueue) := by
    intro thread hEntry hMem
    have hBefore := h.idle thread (hIdle ▸ hEntry)
    exact (hOld thread hMem).elim hBefore.1 hBefore.2
  have hFresh : ∀ thread, thread ∈ t.runQueue ∨ thread ∈ t.waitQueue →
      thread < t.taskIdCounter := by
    intro thread hMem
    rw [hCounter]
    exact (hOld thread hMem).elim (h.run_fresh thread) (h.wait_fresh thread)
  refine ⟨hRun, hWait, hApart, fun thread hEntry => not_or.mp (hOut thread hEntry),
    fun thread hMem => hFresh thread (.inl hMem), fun thread hMem => hFresh thread (.inr hMem), ?_,
    hRunnable⟩
  rw [hIdle, hCounter]
  exact h.idle_fresh

/-- The waiter of a thread outside the run queue may change at will, and so may
everything the queues do not depend on. -/
theorem Queues.withThreads (h : s.Queues) (hRun : t.runQueue = s.runQueue)
    (hWait : t.waitQueue = s.waitQueue) (hIdle : t.idleEntry = s.idleEntry)
    (hCounter : t.taskIdCounter = s.taskIdCounter)
    (hWaiter : ∀ thread ∈ s.runQueue, (s.threads thread).waitManager = none →
      (t.threads thread).waitManager = none) : t.Queues := by
  apply h.within _ _ _ _ hIdle hCounter
  all_goals simp only [hRun, hWait]
  · exact fun thread hMem => hWaiter thread hMem (h.runnable thread hMem)
  · exact h.run_nodup
  · exact h.wait_nodup
  · exact h.apart
  · exact fun _ hMem => hMem

theorem Queues.sublist (h : s.Queues) (hRun : run.Sublist s.runQueue)
    (hWait : wait.Sublist s.waitQueue) : { s with runQueue := run, waitQueue := wait }.Queues :=
  h.within (h.run_nodup.sublist hRun) (h.wait_nodup.sublist hWait)
    (fun thread hMem hIn => h.apart thread (hRun.subset hMem) (hWait.subset hIn))
    (fun _ hMem => hMem.imp (fun hMem => hRun.subset hMem) fun hMem => hWait.subset hMem) rfl rfl
    fun thread hMem => h.runnable thread (hRun.subset hMem)

theorem Queues.withCurrent (h : s.Queues) (current : Option Tid) :
    { s with currentEntry := current }.Queues :=
  h.withThreads rfl rfl rfl rfl fun _ _ hNone => hNone

/-- What a request or a signal asks for: the handler, its callback and the number. -/
structure Request where
  type : ThreadInterruptionInfoType
  handledIrq : Nat
  handledSignal : Int
  entry : Nat
  callback : Nat
  deriving DecidableEq

/-- What the kernel notes down when the request interrupts a thread with this waiter. -/
def Request.info (request : Request) (waiter : Option Waiter) : ThreadInterruptionInfo :=
  { ThreadInterruptionInfo.new waiter with
    type := request.type
    handledIrq := request.handledIrq
    handledSignal := request.handledSignal }

inductive Mark
  | other
  | interrupt (request : Request)
  | perform
  | restore

inductive Change : Thread → Mark → Thread → Prop where
  | same {before after : Thread} (hWaiter : after.waitManager = before.waitManager)
      (hInfo : after.interruptionInfo = before.interruptionInfo) : Change before .other after
  | wait {before after : Thread} (address : Nat)
      (hNot : ∀ entry callback, before.waitManager ≠ some (.performInterruption entry callback))
      (hWaiter : after.waitManager = some (.object address))
      (hInfo : after.interruptionInfo = before.interruptionInfo) : Change before .other after
  | unwait {before after : Thread} {address : Nat} (hObject : before.waitManager = some (.object address))
      (hWaiter : after.waitManager = none)
      (hInfo : after.interruptionInfo = before.interruptionInfo) : Change before .other after
  | interrupt {before after : Thread} (request : Request) (hFree : before.interruptionInfo = none)
      (hWaiter : after.waitManager = some (.performInterruption request.entry request.callback))
      (hInfo : after.interruptionInfo = some (request.info before.waitManager)) :
      Change before (.interrupt request) after
  | perform {before after : Thread} {info : ThreadInterruptionInfo} {entry callback : Nat}
      (state : ProcessorState) (address : Nat)
      (hPerform : before.waitManager = some (.performInterruption entry callback))
      (hBefore : before.interruptionInfo = some info) (hWaiter : after.waitManager = none)
      (hInfo : after.interruptionInfo =
        some { info with cpuState := state, cpuStateAddress := address }) :
      Change before .perform after
  | restore {before after : Thread} {info : ThreadInterruptionInfo}
      (hBefore : before.interruptionInfo = some info) (hWaiter : after.waitManager = info.waitManager)
      (hInfo : after.interruptionInfo = none) : Change before .restore after

def Mark.Scheduled : Mark → Prop
  | .other => True
  | .perform => True
  | _ => False

structure Wakes (s t : Scheduler) : Prop where
  queues : s.Queues → t.Queues
  run : ∃ woken kept, t.runQueue = woken ++ kept ∧ kept.Sublist s.runQueue ∧
    ∀ thread ∈ woken, thread ∈ s.waitQueue ∧ (s.threads thread).alive = true ∧
      (s.threads thread).waitManager ≠ none
  wait : t.waitQueue.Sublist s.waitQueue
  waiter : ∀ thread, (s.threads thread).waitManager = none → (t.threads thread).waitManager = none
  alive : ∀ thread, (t.threads thread).alive = (s.threads thread).alive
  idle : t.idleEntry = s.idleEntry
  counter : t.taskIdCounter = s.taskIdCounter

theorem Wakes.trans {u : Scheduler} (first : Wakes s t) (second : Wakes t u) : Wakes s u where
  queues h := second.queues (first.queues h)
  run := by
    obtain ⟨woken, kept, hRun, hKept, hWoken⟩ := first.run
    obtain ⟨later, rest, hLater, hRest, hAlive⟩ := second.run
    rw [hRun] at hRest
    obtain ⟨stillWoken, stillKept, rfl, hStillWoken, hStillKept⟩ := sublist_append_iff.mp hRest
    refine ⟨later ++ stillWoken, stillKept, ?_, hStillKept.trans hKept, ?_⟩
    · rw [hLater, append_assoc]
    · intro thread hMem
      rcases mem_append.mp hMem with hMem | hMem
      · obtain ⟨hIn, hLive, hWaiter⟩ := hAlive thread hMem
        exact ⟨first.wait.subset hIn, (first.alive thread).symm.trans hLive,
          fun hNone => hWaiter (first.waiter thread hNone)⟩
      · exact hWoken thread (hStillWoken.subset hMem)
  wait := second.wait.trans first.wait
  waiter thread hNone := second.waiter thread (first.waiter thread hNone)
  alive thread := (second.alive thread).trans (first.alive thread)
  idle := second.idle.trans first.idle
  counter := second.counter.trans first.counter

theorem Wakes.queued (h : Wakes s t) {thread : Tid}
    (hMem : thread ∈ t.runQueue ∨ thread ∈ t.waitQueue) :
    thread ∈ s.runQueue ∨ thread ∈ s.waitQueue := by
  rcases hMem with hRun | hWait
  · obtain ⟨woken, kept, hSplit, hKept, hWoken⟩ := h.run
    rw [hSplit] at hRun
    rcases mem_append.mp hRun with hMem | hMem
    · exact .inr (hWoken thread hMem).1
    · exact .inl (hKept.subset hMem)
  · exact .inr (h.wait.subset hWait)

/-- A pass may change a thread as long as it keeps what the queues, the life of
the thread and its interruption depend on. -/
theorem Wakes.of_threads (hRun : t.runQueue = s.runQueue)
    (hWait : t.waitQueue = s.waitQueue) (hIdle : t.idleEntry = s.idleEntry)
    (hCounter : t.taskIdCounter = s.taskIdCounter)
    (hWaiter : ∀ thread, (s.threads thread).waitManager = none →
      (t.threads thread).waitManager = none)
    (hAlive : ∀ thread, (t.threads thread).alive = (s.threads thread).alive) : Wakes s t where
  queues h := h.withThreads hRun hWait hIdle hCounter fun thread _ => hWaiter thread
  run := ⟨[], s.runQueue, hRun, List.Sublist.refl _, by simp⟩
  wait := hWait ▸ List.Sublist.refl _
  waiter := hWaiter
  alive := hAlive
  idle := hIdle
  counter := hCounter

theorem Wakes.refl (s : Scheduler) : Wakes s s :=
  Wakes.of_threads rfl rfl rfl rfl (fun _ h => h) fun _ => rfl

theorem Wakes.of_sublist (hRun : run.Sublist s.runQueue) (hWait : wait.Sublist s.waitQueue) :
    Wakes s { s with runQueue := run, waitQueue := wait } where
  queues h := h.sublist hRun hWait
  run := ⟨[], run, rfl, hRun, by simp⟩
  wait := hWait
  waiter _ hNone := hNone
  alive _ := rfl
  idle := rfl
  counter := rfl

theorem Wakes.withCurrent (h : Wakes s t) (before after : Option Tid) :
    Wakes { s with currentEntry := before } { t with currentEntry := after } where
  queues hQueues := (h.queues (hQueues.withCurrent s.currentEntry)).withCurrent after
  run := h.run
  wait := h.wait
  waiter := h.waiter
  alive := h.alive
  idle := h.idle
  counter := h.counter

theorem wakes_modifyThread (thread : Tid) {change : Thread → Thread}
    (hWaiter : (s.threads thread).waitManager = none →
      (change (s.threads thread)).waitManager = none)
    (hAlive : (change (s.threads thread)).alive = (s.threads thread).alive) :
    Wakes s (s.modifyThread thread change) := by
  refine Wakes.of_threads (by rfl) (by rfl) (by rfl) (by rfl) ?_ ?_
  · intro other hNone
    by_cases hOther : other = thread
    · subst hOther
      simpa using hWaiter hNone
    · rwa [threads_modifyThread_of_ne _ _ _ hOther]
  · intro other
    by_cases hOther : other = thread
    · subst hOther
      simpa using hAlive
    · rw [threads_modifyThread_of_ne _ _ _ hOther]

end Queues

section Passes

variable {s : Scheduler}
variable {thread : Tid} {t : Scheduler} {check : Check} {checks : Tid → Check} {fuel : Nat}
variable {entry : Option Tid}

theorem removeFromQueue_sublist {queue rest : List Tid}
    (h : removeFromQueue queue thread = some rest) : rest.Sublist queue := by
  unfold removeFromQueue at h
  split at h
  · cases h
    exact erase_sublist
  · cases h

theorem wakes_remove (s : Scheduler) (thread : Tid) : Wakes s (s.remove thread) := by
  unfold remove
  cases hRun : removeFromQueue s.runQueue thread with
  | some queue => exact Wakes.of_sublist (removeFromQueue_sublist hRun) (List.Sublist.refl _)
  | none =>
    cases hWait : removeFromQueue s.waitQueue thread with
    | some queue => exact Wakes.of_sublist (List.Sublist.refl _) (removeFromQueue_sublist hWait)
    | none => exact Wakes.refl s

theorem wakes_foldl_remove (threads : List Tid) (s : Scheduler) :
    Wakes s (threads.foldl remove s) := by
  induction threads generalizing s with
  | nil => exact Wakes.refl s
  | cons thread threads ih => exact (wakes_remove s thread).trans (ih _)

theorem wakes_checkAliveState (s : Scheduler) (thread : Tid) :
    Wakes s (s.checkAliveState thread).2 := by
  unfold checkAliveState
  split
  · exact Wakes.refl s
  · split
    · exact (wakes_foldl_remove _ _).trans (wakes_foldl_remove _ _)
    · exact wakes_remove s thread

theorem checkAliveState_of_alive (h : (s.threads thread).alive = true) :
    s.checkAliveState thread = (true, s) := by
  simp [checkAliveState, h]

theorem checkAliveState_of_dead (h : (s.threads thread).alive = false) :
    s.checkAliveState thread = (false, (s.checkAliveState thread).2) := by
  by_cases hMain : (s.threads thread).type = .main <;> simp [checkAliveState, h, hMain]

theorem threads_remove (s : Scheduler) (thread : Tid) : (s.remove thread).threads = s.threads := by
  unfold remove
  split
  · rfl
  · split <;> rfl

theorem threads_foldl_remove (gone : List Tid) (s : Scheduler) :
    (gone.foldl remove s).threads = s.threads := by
  induction gone generalizing s with
  | nil => rfl
  | cons thread gone ih => exact (ih _).trans (threads_remove s thread)

theorem threads_checkAliveState (s : Scheduler) (thread : Tid) :
    (s.checkAliveState thread).2.threads = s.threads := by
  unfold checkAliveState
  split
  · rfl
  · split
    · exact (threads_foldl_remove _ _).trans (threads_foldl_remove _ _)
    · exact threads_remove s thread

/-- One round of `_processWaitQueue`. -/
def visit (checks : Tid → Check) (s : Scheduler) (thread : Tid) : Option Scheduler :=
  match s.checkAliveState thread with
  | (false, s) => some s
  | (true, s) => s.checkWaitingState thread (checks thread)

theorem visit_of_alive (h : (s.threads thread).alive = true) :
    visit checks s thread = s.checkWaitingState thread (checks thread) := by
  rw [visit, checkAliveState_of_alive h]

theorem visit_of_dead {checks : Tid → Check} (h : (s.threads thread).alive = false) :
    visit checks s thread = some (s.checkAliveState thread).2 := by
  rw [visit, checkAliveState_of_dead h]

theorem processWaitQueueFrom_succ (checks : Tid → Check) (fuel : Nat) (s : Scheduler) (thread : Tid) :
    processWaitQueueFrom checks (fuel + 1) s (some thread) =
      (({ s with currentEntry := some thread }.nextEntry thread).bind fun next =>
        (visit checks { s with currentEntry := some thread } thread).bind fun t =>
          processWaitQueueFrom checks fuel t next) := by
  rw [processWaitQueueFrom, visit]
  cases { s with currentEntry := some thread }.nextEntry thread with
  | none => rfl
  | some next =>
    generalize { s with currentEntry := some thread }.checkAliveState thread = result
    rcases result with ⟨alive, t⟩
    cases alive with
    | false => rfl
    | true =>
      dsimp only
      cases t.checkWaitingState thread (checks thread) <;> rfl

/-- What every round of the pass does between two states, the whole pass does. -/
theorem processWaitQueueFrom_induct {R : Scheduler → Scheduler → Prop}
        (hCurrent : ∀ s current, R s { s with currentEntry := current })
    (hVisit : ∀ {s t : Scheduler} {thread : Tid}, visit checks s thread = some t → R s t)
    (hTrans : ∀ {s t u : Scheduler}, R s t → R t u → R s u)
    (h : processWaitQueueFrom checks fuel s entry = some t) : R s t := by
  induction fuel generalizing s entry with
  | zero =>
    cases entry with
    | none =>
      cases h
      exact hCurrent s none
    | some thread => cases h
  | succ fuel ih =>
    cases entry with
    | none =>
      cases h
      exact hCurrent s none
    | some thread =>
      rw [processWaitQueueFrom_succ] at h
      obtain ⟨next, -, h⟩ := bind_eq_some_iff.mp h
      obtain ⟨u, hU, h⟩ := bind_eq_some_iff.mp h
      exact hTrans (hTrans (hCurrent s _) (hVisit hU)) (ih h)

/-- A waiting thread without a waiter may enter the run queue. -/
theorem Queues.wake (h : s.Queues) (hMem : thread ∈ s.waitQueue)
    (hWaiter : (s.threads thread).waitManager = none) :
    { s with
      waitQueue := s.waitQueue.erase thread
      runQueue := thread :: s.runQueue }.Queues := by
  have hNew : thread ∉ s.runQueue := fun hRun => h.apart thread hRun hMem
  refine h.within (nodup_cons.mpr ⟨hNew, h.run_nodup⟩)
    (h.wait_nodup.sublist erase_sublist) ?_ ?_ rfl rfl ?_
  · intro other hOther hIn
    rcases mem_cons.mp hOther with rfl | hOther
    · exact h.wait_nodup.not_mem_erase hIn
    · exact h.apart other hOther (mem_of_mem_erase hIn)
  · rintro other (hOther | hIn)
    · exact (mem_cons.mp hOther).elim (fun hEq => .inr (hEq ▸ hMem)) .inl
    · exact .inr (mem_of_mem_erase hIn)
  · intro other hOther
    rcases mem_cons.mp hOther with rfl | hOther
    · exact hWaiter
    · exact h.runnable other hOther

theorem unwait_of_waiter (h : (s.threads thread).waitManager ≠ none) : s.unwait thread =
      { s.modifyThread thread (fun thread => { thread with waitManager := none }) with
        waitQueue := s.waitQueue.erase thread
        runQueue := if thread ∈ s.waitQueue then thread :: s.runQueue else s.runQueue } := by
  obtain ⟨waiter, hWaiter⟩ := ne_none_iff_exists'.mp h
  simp only [unwait, hWaiter, moveToRunQueue, removeFromQueue, clearWaiter, waitQueue_modifyThread]
  by_cases hMem : thread ∈ s.waitQueue
  · simp [hMem]
  · simp only [hMem, if_false, erase_of_not_mem hMem]
    rfl

/-- What the thread looks like after the interruption has been performed; the rest of the scheduler
is as before. -/
theorem performInterruption_eq_some {entry callback : Nat}
    (h : s.performInterruption thread entry callback = some t) :
    ∃ info states words, (s.threads thread).interruptionInfo = some info ∧
      t = { s with
        threads := update s.threads thread
          { s.threads thread with
            interruptionInfo := some
              { info with
                cpuState := s.cpuStates (s.threads thread).cpuState
                cpuStateAddress := (s.threads thread).cpuState } }
        cpuStates := states
        userWords := words } := by
  unfold performInterruption at h
  cases hInfo : (s.threads thread).interruptionInfo with
  | none =>
    rw [hInfo] at h
    cases h
  | some info =>
    rw [hInfo] at h
    cases h
    exact ⟨info, _, _, rfl, rfl⟩

/-- The thread is as before, but for its counters and for the object it waits for. -/
structure SameKind (before after : Thread) : Prop where
  alive : after.alive = before.alive
  type : after.type = before.type
  process : after.process = before.process
  none : before.waitManager = none → after.waitManager = none
  object : (∃ address, before.waitManager = some (.object address)) →
    ∃ address, after.waitManager = some (.object address)

/-- What becomes of a thread that is checked: it goes on waiting, or its waiter has finished and it
is put in front of the run queue. -/
inductive Checked (s : Scheduler) (thread : Tid) (check : Check) : Scheduler → Prop where
  | waits {after : Thread} (hKind : SameKind (s.threads thread) after)
      (hChange : Change (s.threads thread) .other after) :
      Checked s thread check (s.modifyThread thread fun _ => after)
  | woken {after : Thread} {mark : Mark} (states : Nat → ProcessorState) (words : Pid → Nat → Nat)
      (hWaiter : (s.threads thread).waitManager ≠ none)
      (hStop : (∃ address, (s.threads thread).waitManager = some (.object address)) → check = .stop)
      (hSame : after.alive = (s.threads thread).alive ∧ after.type = (s.threads thread).type ∧
        after.process = (s.threads thread).process)
      (hChange : Change (s.threads thread) mark after) (hMark : mark.Scheduled)
      (hFree : after.waitManager = none) :
      Checked s thread check
        { s.modifyThread thread (fun _ => after) with
          waitQueue := s.waitQueue.erase thread
          runQueue := if thread ∈ s.waitQueue then thread :: s.runQueue else s.runQueue
          cpuStates := states
          userWords := words }

theorem checkWaitingState_checked (h : s.checkWaitingState thread check = some t) :
    Checked s thread check t := by
  unfold checkWaitingState at h
  split at h
  · next hNone =>
      cases h
      have hSelf : Checked s thread check (s.modifyThread thread fun _ => s.threads thread) :=
        .waits ⟨rfl, rfl, rfl, id, id⟩ (.same rfl rfl)
      simpa [modifyThread] using hSelf
  · next entry callback hPerform =>
      obtain ⟨performed, hDone, rfl⟩ := map_eq_some_iff.mp h
      obtain ⟨info, states, words, hInfo, rfl⟩ := performInterruption_eq_some hDone
      rw [unwait_of_waiter (by simp [hPerform])]
      simp only [modifyThread, update_self, update_idem]
      exact .woken states words (by simp [hPerform]) (by simp [hPerform]) ⟨rfl, rfl, rfl⟩
        (.perform _ _ hPerform hInfo rfl rfl) trivial rfl
  · next address hObject =>
      split at h
      · cases h
        exact .waits ⟨rfl, rfl, rfl, id, id⟩ (.same rfl rfl)
      · next replacement =>
          cases h
          rw [wait, if_neg (by simp [hObject]), modifyThread, modifyThread]
          simp only [update_self, update_idem]
          refine .waits ⟨rfl, rfl, rfl, fun hNone => ?_, fun _ => ⟨replacement, rfl⟩⟩
            (.wait replacement (fun entry callback hPerform => ?_) rfl rfl)
          · cases hObject.symm.trans hNone
          · cases hObject.symm.trans hPerform
      · cases h
        rw [unwait_of_waiter (by simp [hObject])]
        simp only [modifyThread, update_self, update_idem]
        exact .woken s.cpuStates s.userWords (by simp [hObject]) (fun _ => rfl) ⟨rfl, rfl, rfl⟩
          (.unwait hObject rfl rfl) trivial rfl

theorem Checked.wakes (h : Checked s thread check t) (hAlive : (s.threads thread).alive = true) :
    Wakes s t := by
  cases h with
  | waits hKind => exact wakes_modifyThread thread hKind.none hKind.alive
  | @woken after _ states words hWaiter _ hSame _ _ hFree =>
    have hChanged : Wakes s (s.modifyThread thread fun _ => after) :=
      wakes_modifyThread thread (fun _ => hFree) hSame.1
    by_cases hMem : thread ∈ s.waitQueue
    · rw [if_pos hMem]
      exact
        { queues := fun h => ((hChanged.queues h).wake hMem (by simpa using hFree)).withThreads
            rfl rfl rfl rfl fun _ _ hNone => hNone
          run := ⟨[thread], s.runQueue, rfl, List.Sublist.refl _, by
            intro other hOther
            rw [mem_singleton.mp hOther]
            exact ⟨hMem, hAlive, hWaiter⟩⟩
          wait := erase_sublist
          waiter := hChanged.waiter
          alive := hChanged.alive
          idle := rfl
          counter := rfl }
    · rw [if_neg hMem, erase_of_not_mem hMem]
      exact hChanged.trans (.of_threads rfl rfl rfl rfl (fun _ hNone => hNone) fun _ => rfl)

theorem visit_wakes (h : visit checks s thread = some t) : Wakes s t := by
  cases hAlive : (s.threads thread).alive with
  | true =>
    rw [visit_of_alive hAlive] at h
    exact (checkWaitingState_checked h).wakes hAlive
  | false =>
    rw [visit_of_dead hAlive] at h
    cases h
    exact wakes_checkAliveState s thread

theorem wakes_processWaitQueueFrom (h : processWaitQueueFrom checks fuel s entry = some t) :
    Wakes s t :=
  processWaitQueueFrom_induct (fun s _ => (Wakes.refl s).withCurrent _ _) visit_wakes .trans h

end Passes

section Selection

variable {s t : Scheduler} {fuel : Nat}

theorem nextCandidate_mem {thread : Tid} (hCurrent : ∀ c, s.currentEntry = some c → c ∉ s.waitQueue)
    (h : s.nextCandidate = some thread) : thread ∈ s.runQueue ∨ s.idleEntry = some thread := by
  have hHead : ∀ {thread}, s.runQueue.head?.or s.idleEntry = some thread →
      thread ∈ s.runQueue ∨ s.idleEntry = some thread := by
    intro thread h
    rcases Option.or_eq_some_iff.mp h with hRun | ⟨-, hIdle⟩
    · exact Or.inl (mem_of_head? hRun)
    · exact Or.inr hIdle
  unfold nextCandidate at h
  split at h
  · exact hHead h
  · next current hEntry =>
      split at h
      · cases h
      · next next hNext =>
          rw [Option.or_assoc] at h
          rcases Option.or_eq_some_iff.mp h with hSome | ⟨-, hRest⟩
          · subst hSome
            unfold nextEntry at hNext
            rw [if_neg (hCurrent current hEntry)] at hNext
            split at hNext
            · exact Or.inl (mem_of_mem_following (mem_of_head? (some.inj hNext)))
            · split at hNext <;> simp at hNext
          · exact hHead hRest

theorem wakes_finishSwitch (s : Scheduler) (thread : Tid) : Wakes s (s.finishSwitch thread) := by
  have hCounted : Wakes s (s.modifyThread thread fun thread =>
      { thread with rounds := (thread.rounds + 1) % 2 ^ 64 }) :=
    wakes_modifyThread thread (fun hNone => hNone) rfl
  exact hCounted.trans (Wakes.of_threads rfl rfl rfl rfl (fun _ hNone => hNone) fun _ => rfl)

/-- A round of the selection ends it with a live thread or removes a dead one. -/
theorem selectNext_cases (h : selectNext (fuel + 1) s = some t) :
    ∃ thread, s.nextCandidate = some thread ∧
      ((s.threads thread).alive = true ∧
          t = { s with currentEntry := some thread }.finishSwitch thread ∨
        (s.threads thread).alive = false ∧ ∃ rest, Wakes s rest ∧ rest.threads = s.threads ∧
          rest.currentEntry = none ∧ selectNext fuel rest = some t) := by
  simp only [selectNext] at h
  split at h
  · cases h
  · next thread hCandidate =>
      refine ⟨thread, hCandidate, ?_⟩
      split at h
      · cases hAlive : (s.threads thread).alive with
        | true =>
          rw [checkAliveState_of_alive (s := { s with currentEntry := some thread }) hAlive] at h
          exact .inl ⟨rfl, (some.inj h).symm⟩
        | false =>
          rw [checkAliveState_of_dead (s := { s with currentEntry := some thread }) hAlive] at h
          have hWakes := wakes_checkAliveState { s with currentEntry := some thread } thread
          exact .inr ⟨rfl, _, hWakes.withCurrent s.currentEntry none,
            threads_checkAliveState { s with currentEntry := some thread } thread, rfl, h⟩
      · cases h

/-- The loop ends on a live thread that can run. -/
theorem selectNext_spec (hCurrent : ∀ c, s.currentEntry = some c → c ∉ s.waitQueue)
    (h : selectNext fuel s = some t) :
    Wakes s t ∧ ∃ thread, t.currentEntry = some thread ∧
      (thread ∈ t.runQueue ∨ t.idleEntry = some thread) ∧ (t.threads thread).alive = true := by
  induction fuel generalizing s with
  | zero => cases h
  | succ fuel ih =>
    obtain ⟨thread, hCandidate, ⟨hAlive, rfl⟩ | ⟨-, rest, hWakes, -, hNone, h⟩⟩ :=
      selectNext_cases h
    · have hHere : Wakes s { s with currentEntry := some thread } :=
        (Wakes.refl s).withCurrent _ _
      have hSwitch := hHere.trans (wakes_finishSwitch { s with currentEntry := some thread } thread)
      have hMem := nextCandidate_mem hCurrent hCandidate
      refine ⟨hSwitch, thread, rfl, hMem, ?_⟩
      rw [hSwitch.alive]
      exact hAlive
    · obtain ⟨hRest, hResult⟩ := ih (by simp [hNone]) h
      exact ⟨hWakes.trans hRest, hResult⟩

end Selection

end Kernel.Scheduler
