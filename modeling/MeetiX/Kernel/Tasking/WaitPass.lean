import Mathlib.Logic.Relation
import MeetiX.Kernel.Tasking.Interruption

/-! The pass of `schedule` over the wait queue. It holds a pointer to the next entry while it
handles one, and `schedule` one to the running entry during the whole pass. Handling a dead main
thread removes the entries of its whole process, wherever they are. -/
namespace Kernel.Scheduler

open Base List

section Visits

variable {s t : Scheduler} {checks : Tid → Check} {thread : Tid}

/-- The queues have no thread in common, so `remove` takes it out of both. -/
theorem remove_eq (h : s.Queues) (thread : Tid) : s.remove thread =
      { s with runQueue := s.runQueue.erase thread, waitQueue := s.waitQueue.erase thread } := by
  by_cases hRun : thread ∈ s.runQueue
  · simp [remove, removeFromQueue, hRun, erase_of_not_mem (h.apart thread hRun)]
  · by_cases hWait : thread ∈ s.waitQueue
    · simp [remove, removeFromQueue, hRun, hWait, erase_of_not_mem]
    · simp [remove, removeFromQueue, hRun, hWait, erase_of_not_mem]

theorem remove_waiting (h : s.Queues) (hMem : thread ∈ s.waitQueue) :
    s.remove thread = { s with waitQueue := s.waitQueue.erase thread } := by
  rw [remove_eq h, erase_of_not_mem fun hRun => h.apart thread hRun hMem]

theorem erase_filter_not_mem {queue : List Tid} (h : queue.Nodup) (thread : Tid) (gone : List Tid) :
    (queue.erase thread).filter (fun other => decide (other ∉ gone)) =
      queue.filter fun other => decide (other ∉ thread :: gone) := by
  rw [h.erase_eq_filter, filter_filter]
  refine filter_congr fun other _ => ?_
  by_cases hOther : other = thread <;> simp [hOther]

theorem foldl_remove (h : s.Queues) (gone : List Tid) : gone.foldl remove s =
      { s with
        runQueue := s.runQueue.filter fun thread => decide (thread ∉ gone)
        waitQueue := s.waitQueue.filter fun thread => decide (thread ∉ gone) } := by
  induction gone generalizing s with
  | nil => simp
  | cons thread gone ih =>
    rw [foldl_cons, ih ((wakes_remove s thread).queues h), remove_eq h,
      erase_filter_not_mem h.run_nodup, erase_filter_not_mem h.wait_nodup]

abbrev processOf (s : Scheduler) (thread : Tid) : Pid := (s.threads thread).process

/-- Both queues lose exactly the entries of the process. -/
theorem removeThreads_eq (h : s.Queues) (process : Pid) : s.removeThreads process =
      { s with
        runQueue := s.runQueue.filter fun thread => decide (s.processOf thread ≠ process)
        waitQueue := s.waitQueue.filter fun thread => decide (s.processOf thread ≠ process) } := by
  unfold removeThreads
  dsimp only
  rw [foldl_remove ((wakes_foldl_remove _ _).queues h), foldl_remove h]
  simp only [filter_filter]
  congr 1
  · refine filter_congr fun thread hMem => ?_
    have hRun : thread ∉ s.runQueue := fun hRun => h.apart thread hRun hMem
    by_cases hProcess : s.processOf thread = process <;> simp [hProcess, hMem, hRun]
  · refine filter_congr fun thread hMem => ?_
    by_cases hProcess : s.processOf thread = process <;> simp [hProcess, hMem]

/-- The pass stands at a thread of the wait queue, which stays there or is taken out. -/
theorem Queues.standing (h : s.Queues) {before suffix : List Tid}
    (hWait : s.waitQueue = before ++ thread :: suffix) :
    thread ∈ s.waitQueue ∧ s.nextEntry thread = some suffix.head? ∧
      ∀ queue, queue = s.waitQueue ∨ queue = s.waitQueue.erase thread →
        ∃ front, queue = front ++ suffix := by
  have hNodup := h.wait_nodup
  rw [hWait] at hNodup
  have hNot : thread ∉ before := fun hIn =>
    (nodup_append.mp hNodup).2.2 thread hIn thread (mem_cons_self ..) rfl
  have hMem : thread ∈ s.waitQueue := by simp [hWait]
  refine ⟨hMem, ?_, ?_⟩
  · rw [Scheduler.nextEntry, if_neg fun hRun => h.apart thread hRun hMem, if_pos hMem, hWait,
      following_append_of_not_mem hNot, following_self]
  · rintro queue (rfl | rfl)
    · exact ⟨before ++ [thread], by rw [hWait]; simp⟩
    · exact ⟨before, by rw [hWait, erase_append_right _ hNot, erase_cons_head]⟩

/-- A thread that waits for its interruption is known to be interrupted. -/
def Prepared (s : Scheduler) (thread : Tid) : Prop :=
  ∀ entry callback, (s.threads thread).waitManager = some (.performInterruption entry callback) →
    (s.threads thread).interruptionInfo ≠ none

theorem Prepared.checkWaitingState (h : s.Prepared thread) (check : Check) :
    ∃ t, s.checkWaitingState thread check = some t := by
  unfold Scheduler.checkWaitingState
  cases hWaiter : (s.threads thread).waitManager with
  | none => exact ⟨s, rfl⟩
  | some waiter =>
    cases waiter with
    | performInterruption entry callback =>
      obtain ⟨info, hInfo⟩ := Option.ne_none_iff_exists'.mp (h entry callback hWaiter)
      simp [performInterruption, hInfo]
    | object address => cases check <;> exact ⟨_, rfl⟩

end Visits

section Doomed

variable {s : Scheduler} {before : List Tid} {thread other : Tid}

/-- At a dead main thread the entries of its whole process are removed. -/
def DeadMain (s : Scheduler) (thread : Tid) : Prop :=
  (s.threads thread).alive = false ∧ (s.threads thread).type = .main

instance : Decidable (s.DeadMain thread) :=
  inferInstanceAs (Decidable (_ ∧ _))

/-- One of the listed threads is a dead main thread of this thread's process. -/
def Doomed (s : Scheduler) (before : List Tid) (thread : Tid) : Prop :=
  ∃ main ∈ before, s.DeadMain main ∧ s.processOf main = s.processOf thread

instance : Decidable (s.Doomed before thread) :=
  inferInstanceAs (Decidable (∃ main ∈ before, _))

/-- The threads that are left when these dead main threads have been handled. -/
def spared (s : Scheduler) (before queue : List Tid) : List Tid :=
  queue.filter fun thread => decide (¬s.Doomed before thread)

theorem doomed_concat : s.Doomed (before ++ [other]) thread ↔
    s.Doomed before thread ∨ s.DeadMain other ∧ s.processOf other = s.processOf thread := by
  constructor
  · rintro ⟨main, hMem, hDead⟩
    rcases mem_append.mp hMem with hMem | hMem
    · exact .inl ⟨main, hMem, hDead⟩
    · rw [mem_singleton.mp hMem] at hDead
      exact .inr hDead
  · rintro (⟨main, hMem, hDead⟩ | hDead)
    · exact ⟨main, mem_append_left _ hMem, hDead⟩
    · exact ⟨other, mem_append_right _ (mem_singleton_self _), hDead⟩

theorem doomed_concat_of_doomed (h : s.Doomed before other) :
    s.Doomed (before ++ [other]) thread ↔ s.Doomed before thread := by
  rw [doomed_concat]
  refine or_iff_left_of_imp ?_
  rintro ⟨-, hProcess⟩
  obtain ⟨main, hMem, hDead, hSame⟩ := h
  exact ⟨main, hMem, hDead, hSame.trans hProcess⟩

theorem doomed_concat_of_not_deadMain (h : ¬s.DeadMain other) :
    s.Doomed (before ++ [other]) thread ↔ s.Doomed before thread := by
  rw [doomed_concat]
  exact or_iff_left_of_imp fun hDead => absurd hDead.1 h

theorem spared_congr {before' : List Tid} (queue : List Tid)
    (h : ∀ thread, s.Doomed before' thread ↔ s.Doomed before thread) :
    s.spared before' queue = s.spared before queue := by
  refine filter_congr fun thread _ => ?_
  rw [decide_eq_decide, h]

theorem spared_nil (s : Scheduler) (queue : List Tid) : s.spared [] queue = queue := by
  refine filter_eq_self.mpr fun thread _ => ?_
  simp [Doomed]

theorem spared_concat_of_deadMain (queue : List Tid) (h : s.DeadMain other) :
    (s.spared before queue).filter (fun thread => decide (s.processOf thread ≠ s.processOf other)) =
      s.spared (before ++ [other]) queue := by
  unfold spared
  rw [filter_filter]
  refine filter_congr fun thread _ => ?_
  rw [← Bool.decide_and, decide_eq_decide, doomed_concat]
  constructor
  · rintro ⟨hProcess, hNot⟩ (hDoomed | ⟨-, hSame⟩)
    · exact hNot hDoomed
    · exact hProcess hSame.symm
  · intro hNot
    exact ⟨fun hSame => hNot (.inr ⟨h, hSame.symm⟩), fun hDoomed => hNot (.inl hDoomed)⟩

theorem spared_cons (queue : List Tid) (h : ¬s.Doomed before thread) :
    s.spared before (thread :: queue) = thread :: s.spared before queue :=
  filter_cons_of_pos (by simpa using h)

theorem spared_cons_of_doomed (queue : List Tid) (h : s.Doomed before thread) :
    s.spared before (thread :: queue) = s.spared (before ++ [thread]) queue := by
  rw [spared_congr queue fun _ => doomed_concat_of_doomed h]
  exact filter_cons_of_neg (by simpa using h)

theorem mem_spared {queue : List Tid} :
    thread ∈ s.spared before queue ↔ thread ∈ queue ∧ ¬s.Doomed before thread := by
  rw [spared, mem_filter, decide_eq_true_iff]

end Doomed

section Positions

variable {s t u : Scheduler} {checks : Tid → Check} {before suffix : List Tid} {thread : Tid}

/-- The entry is in one of the queues, or it is the idle entry. -/
def Member (s : Scheduler) (thread : Tid) : Prop :=
  thread ∈ s.runQueue ∨ thread ∈ s.waitQueue ∨ s.idleEntry = some thread

/-- Where the pass stands: the state and the entry it looks at next. -/
abbrev Position := Scheduler × Option Tid

def Position.Valid (position : Position) : Prop :=
  ∀ thread, position.2 = some thread → position.1.Member thread

/-- A round of the pass; the next entry is read off before the current one is handled. -/
def PassStep (checks : Tid → Check) (position next : Position) : Prop :=
  ∃ thread, position.2 = some thread ∧
    { position.1 with currentEntry := some thread }.nextEntry thread = some next.2 ∧
    visit checks { position.1 with currentEntry := some thread } thread = some next.1

theorem PassStep.unique {position next other : Position} (h : PassStep checks position next)
    (hOther : PassStep checks position other) : other = next := by
  obtain ⟨thread, hThread, hNext, hVisit⟩ := h
  obtain ⟨thread', hThread', hNext', hVisit'⟩ := hOther
  cases hThread.symm.trans hThread'
  exact Prod.ext (Option.some.inj (hVisit'.symm.trans hVisit))
    (Option.some.inj (hNext'.symm.trans hNext))

theorem PassStep.processWaitQueueFrom {next : Option Tid} (h : PassStep checks (t, some thread) (u, next))
    (fuel : Nat) : Scheduler.processWaitQueueFrom checks (fuel + 1) t (some thread) =
      Scheduler.processWaitQueueFrom checks fuel u next := by
  obtain ⟨_, ⟨⟩, hNext, hVisit⟩ := h
  rw [processWaitQueueFrom_succ, hNext, hVisit]
  rfl

/-- The state of a pass that has handled the first part of the wait queue of `s`. -/
structure Reached (s : Scheduler) (before suffix : List Tid) (t : Scheduler) : Prop where
  queues : t.Queues
  wait : ∃ front, t.waitQueue = front ++ s.spared before suffix
  waiting : ∀ thread ∈ t.waitQueue, thread ∈ s.waitQueue
  run : ∃ woken, t.runQueue = woken ++ s.spared before s.runQueue ∧
    ∀ thread ∈ woken, thread ∈ s.waitQueue
  left : ∀ thread, thread ∈ t.runQueue ∨ thread ∈ t.waitQueue → ¬s.Doomed before thread
  same : ∀ thread, (t.threads thread).alive = (s.threads thread).alive ∧
    (t.threads thread).type = (s.threads thread).type ∧ t.processOf thread = s.processOf thread
  ahead : ∀ thread ∈ suffix, t.threads thread = s.threads thread
  idle : t.idleEntry = s.idleEntry

theorem Reached.start (h : s.Queues) : Reached s [] s.waitQueue s where
  queues := h
  wait := ⟨[], (spared_nil s s.waitQueue).symm⟩
  waiting _ hMem := hMem
  run := ⟨[], (spared_nil s s.runQueue).symm, by simp⟩
  left _ _ := by simp [Doomed]
  same _ := ⟨rfl, rfl, rfl⟩
  ahead _ _ := rfl
  idle := rfl

theorem Reached.withCurrent (h : Reached s before suffix t) (current : Option Tid) :
    Reached s before suffix { t with currentEntry := current } :=
  ⟨h.queues.withCurrent current, h.wait, h.waiting, h.run, h.left, h.same, h.ahead, h.idle⟩

section

variable (h : Reached s before (thread :: suffix) t)

include h

/-- An entry that is gone already is passed over. -/
theorem Reached.skip (hDoomed : s.Doomed before thread) :
    Reached s (before ++ [thread]) suffix t := by
  refine ⟨h.queues, ?_, h.waiting, ?_,
    fun other hMem => (doomed_concat_of_doomed hDoomed).not.mpr (h.left other hMem), h.same,
    fun other hMem => h.ahead other (mem_cons_of_mem _ hMem), h.idle⟩
  · rw [← spared_cons_of_doomed suffix hDoomed]
    exact h.wait
  · rw [spared_congr _ fun _ => doomed_concat_of_doomed hDoomed]
    exact h.run

theorem Reached.wait_cons (hSpared : ¬s.Doomed before thread) :
    ∃ front, t.waitQueue = front ++ thread :: s.spared before suffix := by
  rw [← spared_cons suffix hSpared]
  exact h.wait

/-- What is left to do when the entries of a process have been removed. -/
theorem Reached.removeProcess (hSpared : ¬s.Doomed before thread) (hDead : s.DeadMain thread) :
    Reached s (before ++ [thread]) suffix (t.removeThreads (t.processOf thread)) := by
  have hKept : ∀ queue : List Tid,
      (queue.filter fun other => decide (t.processOf other ≠ t.processOf thread)) =
        queue.filter fun other => decide (s.processOf other ≠ s.processOf thread) := by
    intro queue
    refine filter_congr fun other _ => ?_
    rw [(h.same other).2.2, (h.same thread).2.2]
  have hQueues : (t.removeThreads (t.processOf thread)).Queues :=
    ((wakes_foldl_remove _ t).trans (wakes_foldl_remove _ _)).queues h.queues
  rw [removeThreads_eq h.queues, hKept, hKept] at hQueues ⊢
  refine ⟨hQueues, ?_, ?_, ?_, ?_, h.same,
    fun other hMem => h.ahead other (mem_cons_of_mem _ hMem), h.idle⟩
  · obtain ⟨front, hWait⟩ := h.wait_cons hSpared
    refine ⟨front.filter fun other => decide (s.processOf other ≠ s.processOf thread), ?_⟩
    rw [hWait, filter_append, filter_cons_of_neg (by simp),
      spared_concat_of_deadMain suffix hDead]
  · exact fun other hMem => h.waiting other (mem_filter.mp hMem).1
  · obtain ⟨woken, hRun, hWoken⟩ := h.run
    refine ⟨woken.filter fun other => decide (s.processOf other ≠ s.processOf thread), ?_,
      fun other hMem => hWoken other (mem_filter.mp hMem).1⟩
    rw [hRun, filter_append, spared_concat_of_deadMain s.runQueue hDead]
  · intro other hMem
    rw [doomed_concat, not_or]
    have hBoth : (other ∈ t.runQueue ∨ other ∈ t.waitQueue) ∧
        s.processOf other ≠ s.processOf thread := by
      rcases hMem with hMem | hMem
      all_goals
        obtain ⟨hIn, hProcess⟩ := mem_filter.mp hMem
        exact ⟨by simp [hIn], by simpa using hProcess⟩
    exact ⟨h.left other hBoth.1, fun hSame => hBoth.2 hSame.2.symm⟩

/-- The pass goes on behind a thread that it leaves waiting or wakes. -/
theorem Reached.single (hNodup : (thread :: suffix).Nodup)
    (hSpared : ¬s.Doomed before thread) (hNot : ¬s.DeadMain thread) (hQueues : u.Queues)
    (hWait : u.waitQueue = t.waitQueue ∨ u.waitQueue = t.waitQueue.erase thread)
    (hRun : u.runQueue = t.runQueue ∨ u.runQueue = thread :: t.runQueue)
    (hOthers : ∀ other, other ≠ thread → u.threads other = t.threads other)
    (hSame : (u.threads thread).alive = (t.threads thread).alive ∧
      (u.threads thread).type = (t.threads thread).type ∧ u.processOf thread = t.processOf thread)
    (hIdle : u.idleEntry = t.idleEntry) : Reached s (before ++ [thread]) suffix u := by
  have hSparedQueue : ∀ queue, s.spared (before ++ [thread]) queue = s.spared before queue :=
    fun queue => spared_congr queue fun _ => doomed_concat_of_not_deadMain hNot
  obtain ⟨_, hFront⟩ := h.wait_cons hSpared
  obtain ⟨hMem, -, hLeft⟩ := h.queues.standing hFront
  refine ⟨hQueues, ?_, ?_, ?_, ?_, ?_, ?_, hIdle.trans h.idle⟩
  · rw [hSparedQueue]
    exact hLeft _ hWait
  · intro other hOther
    refine h.waiting other ?_
    rcases hWait with hWait | hWait
    · exact hWait ▸ hOther
    · exact mem_of_mem_erase (hWait ▸ hOther)
  · rw [hSparedQueue]
    obtain ⟨woken, hWoken, hFrom⟩ := h.run
    rcases hRun with hRun | hRun
    · exact ⟨woken, hRun.trans hWoken, hFrom⟩
    · refine ⟨thread :: woken, by rw [hRun, hWoken, cons_append], fun other hOther => ?_⟩
      rcases mem_cons.mp hOther with rfl | hOther
      · exact h.waiting other hMem
      · exact hFrom other hOther
  · intro other hOther
    rw [doomed_concat_of_not_deadMain hNot]
    refine h.left other ?_
    rcases hOther with hOther | hOther
    · rcases hRun with hRun | hRun
      · exact .inl (hRun ▸ hOther)
      · rw [hRun] at hOther
        rcases mem_cons.mp hOther with rfl | hOther
        · exact .inr hMem
        · exact .inl hOther
    · rcases hWait with hWait | hWait
      · exact .inr (hWait ▸ hOther)
      · exact .inr (mem_of_mem_erase (hWait ▸ hOther))
  · intro other
    by_cases hOther : other = thread
    · subst hOther
      exact ⟨hSame.1.trans (h.same other).1, hSame.2.1.trans (h.same other).2.1,
        hSame.2.2.trans (h.same other).2.2⟩
    · rw [processOf, hOthers other hOther]
      exact h.same other
  · intro other hOther
    have hNe : other ≠ thread := by
      rintro rfl
      exact (nodup_cons.mp hNodup).1 hOther
    rw [hOthers other hNe]
    exact h.ahead other (mem_cons_of_mem _ hOther)

end

/-- A pass that began in `s` and has come to this part of its wait queue. -/
structure Passing (s : Scheduler) (before suffix : List Tid) (t : Scheduler) : Prop
    extends Reached s before suffix t where
  start : s.Queues
  whole : s.waitQueue = before ++ suffix
  prepared : ∀ thread ∈ suffix, s.Prepared thread

theorem Passing.next (h : Passing s before (thread :: suffix) t)
    (hReached : Reached s (before ++ [thread]) suffix u) :
    Passing s (before ++ [thread]) suffix u where
  toReached := hReached
  start := h.start
  whole := by rw [h.whole, append_assoc, singleton_append]
  prepared other hMem := h.prepared other (mem_cons_of_mem _ hMem)

/-- A round of the pass. -/
theorem Passing.step (checks : Tid → Check) (h : Passing s before (thread :: suffix) t)
    (hSpared : ¬s.Doomed before thread) :
    ∃ u, PassStep checks (t, some thread) (u, (s.spared before suffix).head?) ∧
      Passing s (before ++ [thread]) suffix u := by
  have hHere := h.withCurrent (some thread)
  have hNodup := h.start.wait_nodup
  rw [h.whole] at hNodup
  replace hNodup := (nodup_append.mp hNodup).2.1
  obtain ⟨_, hFront⟩ := hHere.wait_cons hSpared
  obtain ⟨hMem, hNext, -⟩ := hHere.queues.standing hFront
  obtain ⟨hAliveSame, hTypeSame, hProcessSame⟩ := hHere.same thread
  suffices ∃ u, visit checks { t with currentEntry := some thread } thread = some u ∧
      Reached s (before ++ [thread]) suffix u by
    obtain ⟨u, hVisit, hReached⟩ := this
    exact ⟨u, ⟨thread, rfl, hNext, hVisit⟩, h.next hReached⟩
  cases hAlive : (s.threads thread).alive with
  | true =>
    have hReady : { t with currentEntry := some thread }.Prepared thread := by
      have hRecord := hHere.ahead thread (mem_cons_self ..)
      unfold Prepared
      rw [hRecord]
      exact h.prepared thread (mem_cons_self ..)
    obtain ⟨u, hCheck⟩ := hReady.checkWaitingState (checks thread)
    have hVisit : visit checks { t with currentEntry := some thread } thread = some u := by
      rw [visit_of_alive (hAliveSame.trans hAlive)]
      exact hCheck
    have hLive : ¬s.DeadMain thread := fun hDead => Bool.false_ne_true (hDead.1.symm.trans hAlive)
    have hQueues := (visit_wakes hVisit).queues hHere.queues
    cases checkWaitingState_checked hCheck with
    | waits hKind =>
      refine ⟨_, hVisit, hHere.single hNodup hSpared hLive hQueues (.inl rfl) (.inl rfl)
        (fun _ hNe => Function.update_of_ne hNe _ _) ?_ rfl⟩
      rw [processOf, threads_modifyThread_self]
      exact ⟨hKind.alive, hKind.type, hKind.process⟩
    | woken states words hWaiter hStop hSame =>
      refine ⟨_, hVisit, hHere.single hNodup hSpared hLive hQueues (.inr rfl) (.inr (if_pos hMem))
        (fun _ hNe => Function.update_of_ne hNe _ _) ?_ rfl⟩
      rw [processOf, threads_modifyThread_self]
      exact hSame
  | false =>
    have hGone := @visit_of_dead _ _ checks (hAliveSame.trans hAlive)
    rw [checkAliveState, if_neg (by rw [hAliveSame, hAlive]; exact Bool.false_ne_true)] at hGone
    by_cases hMain : (s.threads thread).type = .main
    · have hDead : s.DeadMain thread := ⟨hAlive, hMain⟩
      refine ⟨_, ?_, hHere.removeProcess hSpared hDead⟩
      rw [hGone, if_pos (hTypeSame.trans hMain)]
    · have hRemove := remove_waiting hHere.queues hMem
      have hVisit : visit checks { t with currentEntry := some thread } thread =
          some ({ t with currentEntry := some thread }.remove thread) := by
        rw [hGone, if_neg fun hType => hMain (hTypeSame.symm.trans hType)]
      refine ⟨_, hVisit, hHere.single hNodup hSpared (fun hDead => hMain hDead.2)
        ((visit_wakes hVisit).queues hHere.queues) (.inr ?_) (.inl ?_) ?_ ?_ ?_⟩
      all_goals rw [hRemove]
      · exact fun _ _ => rfl
      · exact ⟨rfl, rfl, rfl⟩

end Positions

section Safety

variable {s t : Scheduler} {checks : Tid → Check} {before suffix : List Tid} {thread : Tid}

/-- No dead main thread of the second part is followed by a thread of its own process. Threads
that are removed before the pass comes to the dead one do not count. -/
def SafeFrom (s : Scheduler) (before suffix : List Tid) : Prop :=
  ∀ front main between next after, suffix = front ++ main :: (between ++ next :: after) →
    s.DeadMain main → ¬s.Doomed (before ++ front) main →
    (∀ thread ∈ between, s.Doomed (before ++ front) thread) →
    ¬s.Doomed (before ++ front) next → s.processOf next ≠ s.processOf main

theorem head_spared_eq_some {queue : List Tid} : (s.spared before queue).head? = some thread ↔
      ∃ between after, queue = between ++ thread :: after ∧
        (∀ other ∈ between, s.Doomed before other) ∧ ¬s.Doomed before thread := by
  rw [spared, head?_filter, find?_eq_some_iff_append]
  constructor
  · rintro ⟨hSpared, between, after, rfl, hBetween⟩
    exact ⟨between, after, rfl, by simpa using hBetween, by simpa using hSpared⟩
  · rintro ⟨between, after, rfl, hBetween, hSpared⟩
    exact ⟨by simpa using hSpared, between, after, rfl, by simpa using hBetween⟩

theorem safeFrom_nil (s : Scheduler) (before : List Tid) : s.SafeFrom before [] := by
  intro front main between next after hSuffix
  simp at hSuffix

theorem safeFrom_cons : s.SafeFrom before (thread :: suffix) ↔
    (s.DeadMain thread → ¬s.Doomed before thread →
      ∀ next, (s.spared before suffix).head? = some next → s.processOf next ≠ s.processOf thread) ∧
    s.SafeFrom (before ++ [thread]) suffix := by
  constructor
  · intro h
    refine ⟨fun hDead hSpared next hNext => ?_, ?_⟩
    · obtain ⟨between, after, rfl, hBetween, hNotNext⟩ := head_spared_eq_some.mp hNext
      refine h [] thread between next after rfl hDead ?_ ?_ ?_
      all_goals rwa [append_nil]
    · intro front main between next after hSuffix
      rw [append_assoc]
      exact h (thread :: front) main between next after (by rw [hSuffix, cons_append])
  · rintro ⟨hHere, hLater⟩ front main between next after hSuffix hDead hSpared hBetween hNotNext
    cases front with
    | nil =>
      rw [append_nil] at hSpared hBetween hNotNext
      cases hSuffix
      exact hHere hDead hSpared next (head_spared_eq_some.mpr ⟨between, after, rfl, hBetween, hNotNext⟩)
    | cons first front =>
      rw [cons_append, cons.injEq] at hSuffix
      obtain ⟨rfl, hSuffix⟩ := hSuffix
      rw [← singleton_append, ← append_assoc] at hSpared hBetween hNotNext
      exact hLater front main between next after hSuffix hDead hSpared hBetween hNotNext

/-- The positions that a pass comes to after the first one. -/
theorem reachable_iff {position next : Position} (hStep : PassStep checks position next) (q : Position) :
    Relation.ReflTransGen (PassStep checks) position q ↔
      q = position ∨ Relation.ReflTransGen (PassStep checks) next q := by
  rw [Relation.ReflTransGen.cases_head_iff]
  constructor
  · rintro (rfl | ⟨other, hOther, hRest⟩)
    · exact .inl rfl
    · rw [hStep.unique hOther] at hRest
      exact .inr hRest
  · rintro (rfl | hRest)
    · exact .inl rfl
    · exact .inr ⟨next, hStep, hRest⟩

theorem position_none_stays {q : Position} (t : Scheduler)
    (h : Relation.ReflTransGen (PassStep checks) (t, none) q) : q = (t, none) := by
  rcases Relation.ReflTransGen.cases_head_iff.mp h with rfl | ⟨next, ⟨thread, hThread, -⟩, -⟩
  · rfl
  · cases hThread

/-- Behind a dead main thread the pass goes on at an entry that still exists, or at one that
has just been removed. -/
theorem spared_head_after (h : Passing s (before ++ [thread]) suffix t) :
    (∀ next, (s.spared before suffix).head? = some next → s.DeadMain thread →
        s.processOf next ≠ s.processOf thread) ∧
      (s.spared (before ++ [thread]) suffix).head? = (s.spared before suffix).head? ∨
    ∃ next, (s.spared before suffix).head? = some next ∧ s.DeadMain thread ∧
      s.processOf next = s.processOf thread ∧ ¬t.Member next := by
  by_cases hDead : s.DeadMain thread
  · rw [← spared_concat_of_deadMain suffix hDead]
    cases hNext : s.spared before suffix with
    | nil => exact .inl ⟨by simp, rfl⟩
    | cons next rest =>
      have hMem : next ∈ s.spared before suffix := by
        rw [hNext]
        exact mem_cons_self ..
      by_cases hProcess : s.processOf next = s.processOf thread
      · have hGone : s.Doomed (before ++ [thread]) next := doomed_concat.mpr (.inr ⟨hDead, hProcess.symm⟩)
        have hWaits : next ∈ s.waitQueue := by
          rw [h.whole]
          exact mem_append_right _ (mem_spared.mp hMem).1
        refine .inr ⟨next, rfl, hDead, hProcess, ?_⟩
        rintro (hRun | hIn | hIdle)
        · exact h.left next (.inl hRun) hGone
        · exact h.left next (.inr hIn) hGone
        · exact (h.start.idle next (h.idle ▸ hIdle)).2 hWaits
      · refine .inl ⟨fun other hOther _ => ?_, ?_⟩
        · cases hOther
          exact hProcess
        · rw [filter_cons_of_pos (by simpa using hProcess)]
          rfl
  · refine .inl ⟨fun _ _ hDead' => absurd hDead' hDead, ?_⟩
    rw [spared_congr suffix fun _ => doomed_concat_of_not_deadMain hDead]

/-- Every entry that the pass looks at exists exactly if the rest of the queue is safe. -/
theorem positions_valid_iff (checks : Tid → Check) (h : Passing s before suffix t) :
    (∀ position, Relation.ReflTransGen (PassStep checks) (t, (s.spared before suffix).head?) position →
      position.Valid) ↔ s.SafeFrom before suffix := by
  induction suffix generalizing before t with
  | nil =>
    refine iff_of_true (fun position hPosition => ?_) (safeFrom_nil s before)
    rw [position_none_stays t hPosition]
    intro thread hThread
    cases hThread
  | cons thread suffix ih =>
    rw [safeFrom_cons]
    by_cases hDoomed : s.Doomed before thread
    · rw [spared_cons_of_doomed suffix hDoomed, ih (h.next (h.skip hDoomed))]
      exact (and_iff_right fun _ hNot => absurd hDoomed hNot).symm
    · obtain ⟨u, hStep, hPassing⟩ := h.step checks hDoomed
      have hHere : Position.Valid (t, some thread) := by
        rintro _ ⟨⟩
        obtain ⟨_, hFront⟩ := h.wait_cons hDoomed
        exact .inr (.inl (h.queues.standing hFront).1)
      rw [spared_cons suffix hDoomed, head?_cons]
      simp only [reachable_iff hStep]
      rcases spared_head_after hPassing with
        ⟨hOther, hSame⟩ | ⟨next, hFirst, hDead, hProcess, hGone⟩
      · have hRest := ih hPassing
        rw [hSame] at hRest
        rw [← hRest]
        constructor
        · intro hAll
          exact ⟨fun hDead _ next hFirst => hOther next hFirst hDead,
            fun position hPosition => hAll position (.inr hPosition)⟩
        · rintro ⟨-, hAll⟩ position (rfl | hPosition)
          · exact hHere
          · exact hAll position hPosition
      · refine iff_of_false (fun hAll => ?_) fun hSafe => hSafe.1 hDead hDoomed next hFirst hProcess
        rw [hFirst] at hAll
        exact hGone (hAll _ (.inr .refl) next rfl)

/-- A pass over a safe queue comes to its end. -/
theorem processWaitQueueFrom_of_safe (checks : Tid → Check) (h : Passing s before suffix t)
    (hSafe : s.SafeFrom before suffix) {fuel : Nat} (hFuel : suffix.length ≤ fuel) :
    ∃ u, processWaitQueueFrom checks fuel t (s.spared before suffix).head? = some u ∧
      Reached s s.waitQueue [] u := by
  induction suffix generalizing before t fuel with
  | nil =>
    refine ⟨{ t with currentEntry := none }, ?_, ?_⟩
    · cases fuel <;> rfl
    · rw [h.whole, append_nil]
      exact h.withCurrent none
  | cons thread suffix ih =>
    have hSafeLater := (safeFrom_cons.mp hSafe).2
    rw [length_cons] at hFuel
    by_cases hDoomed : s.Doomed before thread
    · rw [spared_cons_of_doomed suffix hDoomed]
      exact ih (h.next (h.skip hDoomed)) hSafeLater (by omega)
    · obtain ⟨u, hStep, hPassing⟩ := h.step checks hDoomed
      rw [spared_cons suffix hDoomed, head?_cons]
      cases fuel with
      | zero => omega
      | succ fuel =>
        rw [hStep.processWaitQueueFrom]
        rcases spared_head_after hPassing with
          ⟨-, hSame⟩ | ⟨next, hFirst, hDead, hProcess, -⟩
        · rw [← hSame]
          exact ih hPassing hSafeLater (by omega)
        · exact absurd hProcess ((safeFrom_cons.mp hSafe).1 hDead hDoomed next hFirst)

/-- A state in which the loop of `schedule` that selects a thread begins a round. -/
inductive SelectHead (start : Scheduler) : Scheduler → Prop
  | start : SelectHead start start
  | again {s t : Scheduler} {thread : Tid} (hHead : SelectHead start s)
      (hCandidate : s.nextCandidate = some thread) (hWaiter : (s.threads thread).waitManager = none)
      (hDead : { s with currentEntry := some thread }.checkAliveState thread = (false, t)) :
      SelectHead start { t with currentEntry := none }

/-- Every entry that a call of `schedule` looks at exists at that moment: in the pass over the
wait queue, and in the rounds that select a thread, the first of which begins at the running entry
that was saved before the pass. -/
structure CursorsValid (s : Scheduler) (checks : Tid → Check) : Prop where
  waiting : ∀ position, Relation.ReflTransGen (PassStep checks) (s, s.waitQueue.head?) position →
    position.Valid
  running : ∀ processed, s.processWaitQueue checks = some processed → ∀ head,
    SelectHead { processed with currentEntry := s.currentEntry } head →
    (∀ thread, head.currentEntry = some thread → head.Member thread) ∧
      ∀ thread, head.nextCandidate = some thread → head.Member thread

theorem SelectHead.current {start head : Scheduler} (h : SelectHead start head) :
    head = start ∨ head.currentEntry = none := by
  cases h with
  | start => exact .inl rfl
  | again => exact .inr rfl

theorem nextCandidate_member (hCurrent : ∀ c, s.currentEntry = some c → c ∉ s.waitQueue)
    (h : s.nextCandidate = some thread) : s.Member thread :=
  (nextCandidate_mem hCurrent h).imp_right .inr

end Safety

/-- The main thread of a process runs and then waits for an object. -/
def mainWaits : List Event :=
  [.add .main .idle 0 0, .add .main .normal 1 0, .add .sub .normal 1 0, pass, pass, .wait 5, pass]

theorem run_mainWaits : Run Step (new default default) mainWaits (reached mainWaits) :=
  run_replay (by rfl)

end Kernel.Scheduler
