import MeetiX.Kernel.Tasking.Fairness
import MeetiX.Kernel.Tasking.WaitPass

/-! Calls of `schedule` with nothing happening in between. As long as the pass over the wait queue
wakes nobody and removes only dead threads that are alone, it leaves the run queue and the cursor
as they are, and the calls go round the run queue. -/
namespace Kernel.Scheduler

open Base List

/-- The check of the thread's waiter leaves it in the wait queue. -/
def GoesOnWaiting (s : Scheduler) (checks : Tid → Check) (thread : Tid) : Prop :=
  (s.threads thread).waitManager = none ∨
    (∃ address, (s.threads thread).waitManager = some (.object address)) ∧ checks thread ≠ .stop

/-- A call with these answers wakes no thread and kills none: a dead main thread that is still in
the wait queue takes no other thread with it. -/
structure Undisturbed (s : Scheduler) (checks : Tid → Check) : Prop where
  waits : ∀ thread ∈ s.waitQueue, (s.threads thread).alive = true → s.GoesOnWaiting checks thread
  alone : ∀ main ∈ s.waitQueue, s.DeadMain main → ∀ other, other ∈ s.runQueue ∨ other ∈ s.waitQueue →
    s.processOf other = s.processOf main → other = main

def returned : List (Tid → Check) → Scheduler → Option (List Tid)
  | [], _ => some []
  | checks :: calls, s => do
      let t ← s.schedule checks
      let thread ← t.currentEntry
      let later ← returned calls t
      return thread :: later

section Unmoved

variable {s t u : Scheduler} {checks : Tid → Check} {thread : Tid}

theorem SameKind.refl (thread : Thread) : SameKind thread thread :=
  ⟨rfl, rfl, rfl, id, id⟩

theorem SameKind.trans {first second third : Thread} (h : SameKind first second)
    (hNext : SameKind second third) : SameKind first third :=
  ⟨hNext.alive.trans h.alive, hNext.type.trans h.type, hNext.process.trans h.process,
    hNext.none ∘ h.none, hNext.object ∘ h.object⟩

/-- No thread has been woken, and the run queue is the same. -/
structure Unmoved (s t : Scheduler) : Prop where
  run : t.runQueue = s.runQueue
  wait : t.waitQueue.Sublist s.waitQueue
  idle : t.idleEntry = s.idleEntry
  threads : ∀ thread, SameKind (s.threads thread) (t.threads thread)

theorem Unmoved.refl (s : Scheduler) : Unmoved s s :=
  ⟨rfl, List.Sublist.refl _, rfl, fun _ => .refl _⟩

theorem Unmoved.trans (h : Unmoved s t) (hNext : Unmoved t u) : Unmoved s u :=
  ⟨hNext.run.trans h.run, hNext.wait.trans h.wait, hNext.idle.trans h.idle,
    fun thread => (h.threads thread).trans (hNext.threads thread)⟩

theorem Unmoved.withCurrent (h : Unmoved s t) (current : Option Tid) :
    Unmoved s { t with currentEntry := current } :=
  ⟨h.run, h.wait, h.idle, h.threads⟩

theorem Unmoved.modifyThread (s : Scheduler) (thread : Tid) {change : Thread → Thread}
    (hChange : SameKind (s.threads thread) (change (s.threads thread))) :
    Unmoved s (s.modifyThread thread change) := by
  refine ⟨rfl, List.Sublist.refl _, rfl, fun other => ?_⟩
  rw [threads_modifyThread]
  split
  · next hOther =>
      rw [hOther]
      exact hChange
  · exact .refl _

theorem Undisturbed.unmoved (h : s.Undisturbed checks) (hUnmoved : Unmoved s t) :
    t.Undisturbed checks where
  waits thread hMem hAlive := by
    have hSame := hUnmoved.threads thread
    refine (h.waits thread (hUnmoved.wait.subset hMem) (hSame.alive.symm.trans hAlive)).imp ?_ ?_
    · exact hSame.none
    · exact And.imp_left hSame.object
  alone main hMain hDead other hOther hProcess := by
    have hSame := hUnmoved.threads main
    refine h.alone main (hUnmoved.wait.subset hMain)
      ⟨hSame.alive.symm.trans hDead.1, hSame.type.symm.trans hDead.2⟩ other ?_ ?_
    · exact hOther.imp (hUnmoved.run ▸ ·) (hUnmoved.wait.subset ·)
    · exact (hUnmoved.threads other).process.symm.trans (hProcess.trans hSame.process)

theorem GoesOnWaiting.checkWaitingState (h : s.GoesOnWaiting checks thread) :
    ∃ t, s.checkWaitingState thread (checks thread) = some t ∧ Unmoved s t ∧
      t.waitQueue = s.waitQueue := by
  have hPrepared : s.Prepared thread := by
    intro entry callback hPerform
    rcases h with hNone | ⟨⟨address, hObject⟩, -⟩
    · cases hNone.symm.trans hPerform
    · cases hObject.symm.trans hPerform
  obtain ⟨t, hCheck⟩ := hPrepared.checkWaitingState (checks thread)
  cases checkWaitingState_checked hCheck with
  | waits hKind => exact ⟨_, hCheck, .modifyThread s thread hKind, rfl⟩
  | woken states words hWaiter hStop =>
    rcases h with hNone | ⟨hObject, hGoes⟩
    · exact absurd hNone hWaiter
    · exact absurd (hStop hObject) hGoes

theorem erase_unmoved (s : Scheduler) (thread : Tid) :
    Unmoved s { s with waitQueue := s.waitQueue.erase thread } :=
  ⟨rfl, erase_sublist, rfl, fun _ => .refl _⟩

/-- A dead thread that is alone is the only one to be removed. -/
theorem removeThreads_of_alone (hQueues : s.Queues) (hMem : thread ∈ s.waitQueue)
    (hAlone : ∀ other, other ∈ s.runQueue ∨ other ∈ s.waitQueue →
      s.processOf other = s.processOf thread → other = thread) :
    s.removeThreads (s.processOf thread) =
      { s with waitQueue := s.waitQueue.erase thread } := by
  have hRun : (s.runQueue.filter fun other => decide (s.processOf other ≠ s.processOf thread)) =
      s.runQueue := by
    refine filter_eq_self.mpr fun other hOther => decide_eq_true fun hProcess => ?_
    rw [hAlone other (.inl hOther) hProcess] at hOther
    exact hQueues.apart thread hOther hMem
  have hWait : (s.waitQueue.filter fun other => decide (s.processOf other ≠ s.processOf thread)) =
      s.waitQueue.erase thread := by
    rw [hQueues.wait_nodup.erase_eq_filter]
    refine filter_congr fun other hOther => ?_
    rw [bne, Bool.beq_eq_decide_eq, ← decide_not, decide_eq_decide]
    refine not_congr ⟨hAlone other (.inr hOther), ?_⟩
    rintro rfl
    rfl
  rw [removeThreads_eq hQueues, hRun, hWait]

theorem Undisturbed.visit (h : s.Undisturbed checks) (hQueues : s.Queues)
    (hMem : thread ∈ s.waitQueue) :
    ∃ t, Scheduler.visit checks s thread = some t ∧ Unmoved s t ∧
      (t.waitQueue = s.waitQueue ∨ t.waitQueue = s.waitQueue.erase thread) := by
  cases hAlive : (s.threads thread).alive with
  | true =>
    obtain ⟨t, hCheck, hUnmoved, hWait⟩ := (h.waits thread hMem hAlive).checkWaitingState
    refine ⟨t, ?_, hUnmoved, .inl hWait⟩
    rw [visit_of_alive hAlive]
    exact hCheck
  | false =>
    refine ⟨{ s with waitQueue := s.waitQueue.erase thread }, ?_, erase_unmoved s thread, .inr rfl⟩
    rw [visit_of_dead hAlive, checkAliveState, if_neg (by rw [hAlive]; exact Bool.false_ne_true)]
    by_cases hMain : (s.threads thread).type = .main
    · rw [if_pos hMain, ← removeThreads_of_alone hQueues hMem (h.alone thread hMem ⟨hAlive, hMain⟩)]
    · rw [if_neg hMain, ← remove_waiting hQueues hMem]

theorem Undisturbed.processWaitQueueFrom {before suffix : List Tid} {fuel : Nat}
    (h : s.Undisturbed checks) (hQueues : s.Queues) (hWait : s.waitQueue = before ++ suffix)
    (hFuel : suffix.length ≤ fuel) :
    ∃ t, Scheduler.processWaitQueueFrom checks fuel s suffix.head? = some t ∧ Unmoved s t := by
  induction suffix generalizing s before fuel with
  | nil =>
    refine ⟨{ s with currentEntry := none }, ?_, (Unmoved.refl s).withCurrent none⟩
    cases fuel <;> rfl
  | cons thread suffix ih =>
    obtain ⟨fuel, rfl⟩ := Nat.exists_eq_add_one_of_ne_zero
      (show fuel ≠ 0 by rw [length_cons] at hFuel; omega)
    have hHere : Unmoved s { s with currentEntry := some thread } := (Unmoved.refl s).withCurrent _
    have hQueuesHere := hQueues.withCurrent (some thread)
    obtain ⟨hMem, hNext, hLeft⟩ := hQueuesHere.standing hWait
    obtain ⟨t, hVisit, hUnmoved, hQueue⟩ := (h.unmoved hHere).visit hQueuesHere hMem
    obtain ⟨front, hFront⟩ := hLeft _ hQueue
    obtain ⟨u, hPass, hLater⟩ := ih (h.unmoved (hHere.trans hUnmoved))
      ((visit_wakes hVisit).queues hQueuesHere) hFront (Nat.le_of_succ_le_succ hFuel)
    refine ⟨u, ?_, (hHere.trans hUnmoved).trans hLater⟩
    rw [head?_cons, processWaitQueueFrom_succ, hNext, hVisit]
    exact hPass

end Unmoved

section Calls

variable {s t : Scheduler} {checks : Tid → Check} {thread : Tid} {front back rest : List Tid}

/-- The next candidate stands behind the current entry, or at the front again. -/
theorem nextCandidate_of_stands (h : s.Valid)
    (hStands : Stands s.currentEntry front back s.runQueue) (hRun : s.runQueue ≠ []) :
    s.nextCandidate = back.head?.or s.runQueue.head? := by
  obtain ⟨first, queue, hQueue⟩ := exists_cons_of_ne_nil hRun
  have hHead : s.runQueue.head? = some first := by
    rw [hQueue]
    rfl
  by_cases hMem : ∃ current ∈ s.runQueue, s.currentEntry = some current
  · obtain ⟨current, hMem, hCurrent⟩ := hMem
    rw [hCurrent] at hStands
    rw [nextCandidate_of_mem hMem hCurrent, hStands.following h.queues.run_nodup hMem]
  · have hFront : front = [] := by
      rcases hStands.last with hLast | ⟨hNil, -⟩
      · refine getLast?_eq_none_iff.mp (Option.eq_none_iff_forall_ne_some.mpr ?_)
        intro current hSome
        refine hMem ⟨current, ?_, hLast.symm.trans hSome⟩
        rw [hStands.split]
        exact mem_append_left _ (mem_of_getLast? hSome)
      · exact hNil
    have hBack : back = s.runQueue := by
      rw [hStands.split, hFront, nil_append]
    rw [hBack, nextCandidate]
    cases hCurrent : s.currentEntry with
    | none => simp [hHead]
    | some current =>
      have hNot : current ∉ s.runQueue := fun hIn => hMem ⟨current, hIn, hCurrent⟩
      have hIdle := (h.current current hCurrent).resolve_left hNot
      simp [nextEntry, hNot, (h.queues.idle current hIdle).2, hIdle, hHead]

/-- One call: the next thread of the round is returned, and the round goes on behind it. -/
theorem Undisturbed.schedule (h : s.Undisturbed checks) (hValid : s.Valid)
    (hAlive : ∀ other ∈ s.runQueue, (s.threads other).alive = true)
    (hStands : Stands s.currentEntry front back s.runQueue) (hOrder : back ++ front = thread :: rest) :
    ∃ t, s.schedule checks = some t ∧ Unmoved s t ∧ t.currentEntry = some thread := by
  obtain ⟨processed, hPass, hUnmoved⟩ := h.processWaitQueueFrom hValid.queues
    (nil_append s.waitQueue).symm (le_refl _)
  have hReady := hUnmoved.withCurrent s.currentEntry
  have hMem : thread ∈ s.runQueue := by
    have hIn : thread ∈ back ++ front := by
      rw [hOrder]
      exact mem_cons_self ..
    rw [hStands.split]
    exact mem_append.mpr (mem_append.mp hIn).symm
  have hReadyValid : { processed with currentEntry := s.currentEntry }.Valid := by
    refine ⟨((wakes_processWaitQueueFrom hPass).queues hValid.queues).withCurrent _, ?_⟩
    intro current hCurrent
    rw [hReady.run, hReady.idle]
    exact hValid.current current hCurrent
  have hCandidate : { processed with currentEntry := s.currentEntry }.nextCandidate = some thread := by
    have hReadyStands : Stands s.currentEntry front back processed.runQueue := by
      rw [hUnmoved.run]
      exact hStands
    have hReadyRun : processed.runQueue ≠ [] := by
      rw [hUnmoved.run]
      exact ne_nil_of_mem hMem
    rw [nextCandidate_of_stands hReadyValid hReadyStands hReadyRun, hReady.run]
    exact (hStands.advance hOrder).1
  have hRunnable : (processed.threads thread).waitManager = none :=
    (hUnmoved.threads thread).none (hValid.queues.runnable thread hMem)
  have hLive : { processed with currentEntry := some thread }.checkAliveState thread = (true, _) :=
    checkAliveState_of_alive ((hUnmoved.threads thread).alive.trans (hAlive thread hMem))
  refine ⟨{ processed with currentEntry := some thread }.finishSwitch thread, ?_, ?_, rfl⟩
  · unfold Scheduler.schedule
    rw [processWaitQueue, hPass]
    simp only [selectNext, hCandidate, hRunnable, if_true, hLive]
  · have hRounds : Unmoved { processed with currentEntry := some thread }
        ({ processed with currentEntry := some thread }.modifyThread thread fun thread =>
          { thread with rounds := (thread.rounds + 1) % 2 ^ 64 }) :=
      .modifyThread _ thread ⟨rfl, rfl, rfl, id, id⟩
    have hBoth := (hUnmoved.withCurrent (some thread)).trans hRounds
    exact ⟨hBoth.run, hBoth.wait, hBoth.idle, hBoth.threads⟩

theorem returned_eq_visits {calls : List (Tid → Check)} (hCalls : ∀ checks ∈ calls, s.Undisturbed checks)
    (hValid : s.Valid) (hAlive : ∀ other ∈ s.runQueue, (s.threads other).alive = true)
    (hStands : Stands s.currentEntry front back s.runQueue) (hRun : s.runQueue ≠ []) :
    s.returned calls = some (visits (back ++ front) calls.length) := by
  induction calls generalizing s front back with
  | nil => simp [returned]
  | cons checks calls ih =>
    have hOrder : back ++ front ≠ [] := by
      intro hNil
      obtain ⟨rfl, rfl⟩ := append_eq_nil_iff.mp hNil
      exact hRun hStands.split
    obtain ⟨thread, rest, hOrder⟩ := exists_cons_of_ne_nil hOrder
    obtain ⟨t, hSchedule, hUnmoved, hCurrent⟩ := (hCalls checks (mem_cons_self ..)).schedule
      hValid hAlive hStands hOrder
    obtain ⟨front', back', hStands', hOrder'⟩ := (hStands.advance hOrder).2
    have hLater : t.returned calls = some (visits (back' ++ front') calls.length) := by
      refine ih (fun other hOther => ?_) (schedule_spec hValid hSchedule).2.1 ?_ ?_ ?_
      · exact (hCalls other (mem_cons_of_mem _ hOther)).unmoved hUnmoved
      · intro other hOther
        rw [hUnmoved.run] at hOther
        exact (hUnmoved.threads other).alive.trans (hAlive other hOther)
      · rw [hUnmoved.run, hCurrent]
        exact hStands'
      · rw [hUnmoved.run]
        exact hRun
    rw [hOrder, length_cons, visits_succ, ← hOrder']
    simp [returned, hSchedule, hCurrent, hLater]

section

variable (hQueues : s.Queues)
  (hNotWaiting : ∀ current, s.currentEntry = some current → current ∉ s.waitQueue)

include hQueues hNotWaiting

/-- Where the idle entry was tried, there is nothing else to run. -/
theorem nextCandidate_idle
    (h : s.nextCandidate = s.idleEntry) (hSome : s.idleEntry = some thread) : s.runQueue = [] := by
  have hNot := (hQueues.idle thread hSome).1
  rw [hSome] at h
  by_contra hRun
  exact hNot (nextCandidate_mem_runQueue hRun hNotWaiting h)

theorem selectNext_idle {fuel : Nat}
    (h : selectNext fuel s = some t) (hIdle : t.currentEntry = t.idleEntry) : t.runQueue = [] := by
  induction fuel generalizing s with
  | zero => cases h
  | succ fuel ih =>
    obtain ⟨thread, hCandidate, ⟨-, rfl⟩ | ⟨-, rest, hWakes, -, hNone, h⟩⟩ := selectNext_cases h
    · have hEntry : s.idleEntry = some thread := hIdle.symm
      have hEmpty : s.runQueue = [] :=
        nextCandidate_idle hQueues hNotWaiting (hCandidate.trans hEntry.symm) hEntry
      exact hEmpty
    · exact ih (hWakes.queues hQueues) (by simp [hNone]) h

end

/-- In every run of calls, any as many consecutive ones as there are threads in the run queue return
each of them exactly once. A call returns the idle thread only when the run queue is empty. -/
theorem schedule_goes_round (h : s.Valid) :
    (∀ calls : List (Tid → Check), (∀ checks ∈ calls, s.Undisturbed checks) →
      (∀ other ∈ s.runQueue, (s.threads other).alive = true) → s.runQueue ≠ [] →
      ∃ threads, s.returned calls = some threads ∧ threads.length = calls.length ∧
        ∀ earlier later, calls.length = earlier + s.runQueue.length + later →
          ((threads.drop earlier).take s.runQueue.length).Perm s.runQueue) ∧
    ∀ checks t, s.schedule checks = some t → t.currentEntry = t.idleEntry → t.runQueue = [] := by
  refine ⟨fun calls hCalls hAlive hRun => ?_, fun checks t hSchedule hIdle => ?_⟩
  · obtain ⟨front, back, hStands⟩ := exists_stands s.currentEntry s.runQueue
    have hPerm : (back ++ front).Perm s.runQueue := by
      rw [hStands.split]
      exact perm_append_comm
    refine ⟨_, returned_eq_visits hCalls h hAlive hStands hRun, ?_, fun earlier later hLength => ?_⟩
    · refine length_visits (fun hNil => hRun ?_) _
      rw [hNil] at hPerm
      exact hPerm.nil_eq.symm
    · rw [hLength, ← hPerm.length_eq]
      exact (visits_window_perm earlier later).trans hPerm
  · obtain ⟨ready, fuel, hPass, -, hNotWaiting, hSelected⟩ := schedule_split h hSchedule
    exact selectNext_idle (hPass.queues h.queues) hNotWaiting hSelected hIdle

end Calls

/-- Two threads are ready to run while a third one waits for an object. -/
def twoReady : List Event :=
  [.add .main .idle 0 0, .add .main .normal 1 0, .add .main .normal 2 0, .add .main .normal 3 0, pass,
    .wait 5]

theorem schedule_goes_round_twoReady : (reached twoReady).runQueue = [2, 1] ∧
    (reached twoReady).waitQueue = [3] ∧
    ∃ threads, (reached twoReady).returned [fun _ => .wait, fun _ => .replace 6, fun _ => .wait] =
      some threads ∧ (threads.take 2).Perm [2, 1] ∧ ((threads.drop 1).take 2).Perm [2, 1] := by
  have hRun : Run Step (new default default) twoReady (reached twoReady) := run_replay (by rfl)
  have hCalls : ∀ checks : Tid → Check, checks 3 ≠ .stop → (reached twoReady).Undisturbed checks := by
    refine fun checks hCheck => ⟨fun thread hMem _ => ?_, fun main hMain hDead => ?_⟩
    · cases mem_singleton.mp hMem
      exact .inr ⟨⟨5, rfl⟩, hCheck⟩
    · cases mem_singleton.mp hMain
      cases hDead.1
  obtain ⟨threads, hReturned, -, hWindows⟩ := (schedule_goes_round (run_valid hRun)).1
    [fun _ => .wait, fun _ => .replace 6, fun _ => .wait] (by simp [hCalls]) (by decide) (by decide)
  exact ⟨rfl, rfl, threads, hReturned, hWindows 0 1 rfl, hWindows 1 0 rfl⟩

end Kernel.Scheduler
