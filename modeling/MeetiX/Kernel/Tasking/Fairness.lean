import Mathlib.Data.Prod.Lex
import MeetiX.Base.Liveness
import MeetiX.Kernel.Tasking.SchedulerHistory

/-! Which threads get to run. The current entry is a cursor along the run queue, and the entries
behind it are still to be visited in this round. New and woken threads are put in front and wait
for the next round. When the running thread blocks, the cursor is lost and a new round begins. -/
namespace Kernel.Scheduler

open Base List

/-- The `n`-th step of the run calls `schedule`, which returns the thread. -/
def Selects (run : InfiniteRun Step) (n : Nat) (thread : Tid) : Prop :=
  (run.labels n).Schedules (run.states n) ∧ (run.states (n + 1)).currentEntry = some thread

/-- The event lets the round go on: `schedule` finds no dead thread in the run
queue, and the running thread is blocked only when it is the last one of the
round. -/
def Calm (s : Scheduler) (event : Event) : Prop :=
  (event.Schedules s → ∀ thread ∈ s.runQueue, (s.threads thread).alive = true) ∧
    ∀ thread, event.Blocks s thread → s.currentEntry = some thread →
      following thread s.runQueue = []

/-- The cursor is not in the run queue, so that a round begins. -/
def AtHead (s : Scheduler) : Prop :=
  ∀ current, s.currentEntry = some current → current ∉ s.runQueue

/-- How long the thread has to wait for its turn: the entries left of the round if the cursor
comes to the thread in this round, and more if a new round has to begin or this one is to end
first. -/
def rank (thread : Tid) (s : Scheduler) : Nat ×ₗ Nat :=
  match s.currentEntry with
  | none => toLex (1, 0)
  | some current =>
    if current ∈ s.runQueue then
      toLex (if thread ∈ following current s.runQueue then 0 else 2,
        (following current s.runQueue).length)
    else toLex (1, 0)

section Drift

variable {s t : Scheduler} {thread current : Tid}

theorem rank_of_atHead (h : AtHead s) : rank thread s = toLex (1, 0) := by
  unfold rank
  split
  · rfl
  · next current hCurrent => rw [if_neg (h current hCurrent)]

theorem rank_of_mem (hMem : current ∈ s.runQueue) (hCurrent : s.currentEntry = some current) :
    rank thread s = toLex (if thread ∈ following current s.runQueue then 0 else 2,
      (following current s.runQueue).length) := by
  rw [rank, hCurrent]
  exact if_pos hMem

theorem atHead_or_mem (s : Scheduler) :
    AtHead s ∨ ∃ current ∈ s.runQueue, s.currentEntry = some current := by
  by_cases h : AtHead s
  · exact .inl h
  · obtain ⟨current, hCurrent, hMem⟩ : ∃ current, s.currentEntry = some current ∧
        current ∈ s.runQueue := by simpa [AtHead] using h
    exact .inr ⟨current, hMem, hCurrent⟩

/-- Entries may leave the run queue, and others may be put in front of it. -/
def Drift (s t : Scheduler) : Prop :=
  ∃ front kept, t.runQueue = front ++ kept ∧ kept.Sublist s.runQueue ∧
    ∀ thread ∈ front, thread ∉ s.runQueue

section

variable (h : Drift s t) (hValid : s.Valid) (hBefore : current ∈ s.runQueue)
  (hAfter : current ∈ t.runQueue)

include h hValid hBefore hAfter

theorem Drift.following_sublist :
    (following current t.runQueue).Sublist (following current s.runQueue) := by
  obtain ⟨front, kept, hRun, hKept, hFront⟩ := h
  have hNotFront : current ∉ front := fun hMem => hFront current hMem hBefore
  rw [hRun] at hAfter
  rw [hRun, following_append_of_not_mem hNotFront]
  exact following_mono hKept hValid.queues.run_nodup
    ((mem_append.mp hAfter).resolve_left hNotFront)

theorem Drift.mem_following
    (hStays : thread ∈ t.runQueue) (hAhead : thread ∈ following current s.runQueue) :
    thread ∈ following current t.runQueue := by
  obtain ⟨front, kept, hRun, hKept, hFront⟩ := h
  have hKeptMem : ∀ other ∈ t.runQueue, other ∈ s.runQueue → other ∈ kept := by
    intro other hMem hOld
    rw [hRun] at hMem
    exact (mem_append.mp hMem).resolve_left fun hNew => hFront other hNew hOld
  rw [hRun, following_append_of_not_mem fun hMem => hFront current hMem hBefore]
  exact mem_following_of_sublist hKept hValid.queues.run_nodup (hKeptMem current hAfter hBefore)
    (hKeptMem thread hStays (mem_of_mem_following hAhead)) hAhead

end

/-- The cursor has not moved, or the round was over and it is lost. -/
structure Rests (s t : Scheduler) : Prop where
  drift : Drift s t
  current : t.currentEntry = s.currentEntry ∧
      (∀ current, s.currentEntry = some current → current ∈ s.runQueue → current ∈ t.runQueue) ∨
    t.currentEntry = none ∧
      ∀ current, s.currentEntry = some current → following current s.runQueue = []
  atHead : AtHead s → AtHead t

theorem Rests.rank_le (h : Rests s t) (hValid : s.Valid) (hStays : thread ∈ t.runQueue) :
    rank thread t ≤ rank thread s := by
  rcases atHead_or_mem s with hHead | ⟨current, hMem, hCurrent⟩
  · rw [rank_of_atHead hHead, rank_of_atHead (h.atHead hHead)]
  · rw [rank_of_mem hMem hCurrent]
    rcases h.current with ⟨hSame, hKept⟩ | ⟨hLost, hOver⟩
    · have hAfter := hKept current hCurrent hMem
      have hSublist := h.drift.following_sublist hValid hMem hAfter
      have hPhase : thread ∈ following current t.runQueue ↔ thread ∈ following current s.runQueue :=
        ⟨fun hIn => hSublist.subset hIn, h.drift.mem_following hValid hMem hAfter hStays⟩
      rw [rank_of_mem hAfter (hSame.trans hCurrent), Prod.Lex.toLex_le_toLex]
      exact .inr ⟨by simp only [hPhase], hSublist.length_le⟩
    · have hHead : AtHead t := by simp [AtHead, hLost]
      rw [rank_of_atHead hHead, hOver current hCurrent]
      simp [Prod.Lex.toLex_le_toLex]

end Drift

section Turn

variable {s t : Scheduler} {thread : Tid}

/-- `schedule` moves the cursor by one entry of the new run queue. -/
structure Turns (s t : Scheduler) : Prop where
  drift : Drift s t
  follows : ∀ current ∈ s.runQueue, s.currentEntry = some current → current ∈ t.runQueue ∧
    t.currentEntry = (following current t.runQueue).head?.or t.runQueue.head?
  begins : AtHead s → t.currentEntry = t.runQueue.head?

/-- At the beginning of a round the thread is selected or lies ahead. -/
theorem rank_of_first (hStays : thread ∈ t.runQueue) (hCurrent : t.currentEntry = t.runQueue.head?) :
    t.currentEntry = some thread ∨ ∃ length, rank thread t = toLex (0, length) := by
  cases hRun : t.runQueue with
  | nil =>
    rw [hRun] at hStays
    cases hStays
  | cons first rest =>
    have hMem : first ∈ t.runQueue := by simp [hRun]
    rw [hRun] at hStays hCurrent
    rcases mem_cons.mp hStays with rfl | hRest
    · exact .inl hCurrent
    · right
      rw [rank_of_mem hMem hCurrent, hRun, following_self, if_pos hRest]
      exact ⟨_, rfl⟩

/-- A turn brings every other thread that stays in the queue closer to its own. -/
theorem Turns.rank_lt (h : Turns s t) (hValid : s.Valid) (hAfter : t.Valid)
    (hStays : thread ∈ t.runQueue) :
    t.currentEntry = some thread ∨ rank thread t < rank thread s := by
  rcases atHead_or_mem s with hHead | ⟨current, hMem, hCurrent⟩
  · refine (rank_of_first hStays (h.begins hHead)).imp_right ?_
    rintro ⟨length, hRank⟩
    rw [hRank, rank_of_atHead hHead]
    simp [Prod.Lex.toLex_lt_toLex]
  · obtain ⟨hKept, hNext⟩ := h.follows current hMem hCurrent
    have hSublist := h.drift.following_sublist hValid hMem hKept
    have hAhead := h.drift.mem_following hValid hMem hKept hStays
    rw [rank_of_mem hMem hCurrent]
    cases hRest : following current t.runQueue with
    | nil =>
      rw [hRest] at hNext hAhead
      refine (rank_of_first hStays hNext).imp_right ?_
      rintro ⟨length, hRank⟩
      rw [hRank, if_neg fun hIn => not_mem_nil (hAhead hIn)]
      simp [Prod.Lex.toLex_lt_toLex]
    | cons next rest =>
      have hFollowing := following_next hAfter.queues.run_nodup hRest
      have hIn : next ∈ t.runQueue :=
        mem_of_mem_following (by rw [hRest]; exact mem_cons_self)
      rw [hRest] at hNext hAhead hSublist
      have hEntry : t.currentEntry = some next := hNext
      by_cases hHere : next = thread
      · exact .inl (hHere ▸ hEntry)
      · have hPhase : thread ∈ rest ↔ thread ∈ following current s.runQueue :=
          ⟨fun hRest => hSublist.subset (mem_cons_of_mem _ hRest),
            fun hOld => (mem_cons.mp (hAhead hOld)).resolve_left (Ne.symm hHere)⟩
        right
        rw [rank_of_mem hIn hEntry, hFollowing, Prod.Lex.toLex_lt_toLex]
        exact .inr ⟨by simp only [hPhase], hSublist.length_le⟩

end Turn

section Steps

variable {s t : Scheduler} {thread candidate : Tid} {event : Event}

theorem Wakes.drift (h : Wakes s t) (hQueues : s.Queues) : Drift s t := by
  obtain ⟨woken, kept, hRun, hKept, hWoken⟩ := h.run
  exact ⟨woken, kept, hRun, hKept, fun other hMem hOld =>
    hQueues.apart other hOld (hWoken other hMem).1⟩

theorem nextCandidate_of_mem {current : Tid} (hMem : current ∈ s.runQueue)
    (hCurrent : s.currentEntry = some current) :
    s.nextCandidate = (following current s.runQueue).head?.or s.runQueue.head? := by
  obtain ⟨first, rest, hQueue⟩ := exists_cons_of_ne_nil (ne_nil_of_mem hMem)
  have hFirst : s.runQueue.head? = some first := by rw [hQueue, head?_cons]
  cases hNext : (following current s.runQueue).head? <;>
    simp [nextCandidate, hCurrent, nextEntry, hMem, hNext, hFirst]

theorem nextCandidate_of_atHead (hAtHead : AtHead s) (hRun : s.runQueue ≠ [])
    (hNotWaiting : ∀ current, s.currentEntry = some current → current ∉ s.waitQueue)
    (h : s.nextCandidate = some candidate) : s.runQueue.head? = some candidate := by
  obtain ⟨first, rest, hQueue⟩ := exists_cons_of_ne_nil hRun
  unfold nextCandidate at h
  split at h
  · simpa [hQueue] using h
  · next current hCurrent =>
      rw [nextEntry, if_neg (hAtHead current hCurrent), if_neg (hNotWaiting current hCurrent)] at h
      split at h
      · cases h
      · next next hNext =>
          split at hNext
          · cases hNext
            simpa [hQueue] using h
          · cases hNext

theorem nextCandidate_mem_runQueue (hRun : s.runQueue ≠ [])
    (hNotWaiting : ∀ current, s.currentEntry = some current → current ∉ s.waitQueue)
    (h : s.nextCandidate = some candidate) : candidate ∈ s.runQueue := by
  rcases atHead_or_mem s with hAtHead | ⟨current, hIn, hCurrent⟩
  · exact mem_of_head? (nextCandidate_of_atHead hAtHead hRun hNotWaiting h)
  · rw [nextCandidate_of_mem hIn hCurrent] at h
    rcases Option.or_eq_some_iff.mp h with hNext | ⟨-, hFirst⟩
    · exact mem_of_mem_following (mem_of_head? hNext)
    · exact mem_of_head? hFirst

/-- If all threads of the run queue are alive the first candidate is selected. -/
theorem selectNext_of_alive {fuel : Nat} (hMem : thread ∈ s.runQueue)
    (hNotWaiting : ∀ current, s.currentEntry = some current → current ∉ s.waitQueue)
    (hAlive : ∀ other ∈ s.runQueue, (s.threads other).alive = true)
    (h : selectNext fuel s = some t) :
    t.runQueue = s.runQueue ∧ s.nextCandidate = t.currentEntry ∧ t.currentEntry ≠ none := by
  cases fuel with
  | zero => cases h
  | succ fuel =>
    obtain ⟨candidate, hCandidate, ⟨-, rfl⟩ | ⟨hDead, -⟩⟩ := selectNext_cases h
    · exact ⟨rfl, hCandidate, by rintro ⟨⟩⟩
    · have hRun := nextCandidate_mem_runQueue (ne_nil_of_mem hMem) hNotWaiting hCandidate
      rw [hAlive candidate hRun] at hDead
      cases hDead

/-- What `schedule` does when it finds no dead thread in the run queue. -/
theorem turns_of_schedule (hValid : s.Valid) {checks : Tid → Check}
    (hAlive : ∀ other ∈ s.runQueue, (s.threads other).alive = true)
    (hBefore : thread ∈ s.runQueue) (hStays : thread ∈ t.runQueue)
    (h : s.schedule checks = some t) : Turns s t := by
  have hDrift : Drift s t := (schedule_spec hValid h).1.drift hValid.queues
  obtain ⟨ready, fuel, hPass, hSame, hNotWaiting, hSelected⟩ := schedule_split hValid h
  have hReadyAlive : ∀ other ∈ ready.runQueue, (ready.threads other).alive = true := by
    intro other hMem
    obtain ⟨woken, kept, hRun, hKept, hWoken⟩ := hPass.run
    rw [hRun] at hMem
    rw [hPass.alive other]
    rcases mem_append.mp hMem with hMem | hMem
    · exact (hWoken other hMem).2.1
    · exact hAlive other (hKept.subset hMem)
  have hThread : thread ∈ ready.runQueue := by
    obtain ⟨hSelect, -⟩ := selectNext_spec hNotWaiting hSelected
    obtain ⟨woken, kept, hRun, hKept, hWoken⟩ := hSelect.run
    rw [hRun] at hStays
    refine hKept.subset ((mem_append.mp hStays).resolve_left fun hMem => ?_)
    exact hValid.queues.apart thread hBefore (hPass.wait.subset (hWoken thread hMem).1)
  obtain ⟨hRun, hCandidate, hSome⟩ :=
    selectNext_of_alive hThread hNotWaiting hReadyAlive hSelected
  refine ⟨hDrift, fun current hMem hCurrent => ?_, fun hAtHead => ?_⟩
  · rw [hRun, ← hCandidate]
    rw [← hSame] at hCurrent
    have hKept : current ∈ ready.runQueue := by
      by_contra hGone
      have hNotIdle : ready.idleEntry ≠ some current := by
        rw [hPass.idle]
        exact fun hIdle => (hValid.queues.idle current hIdle).1 hMem
      apply hSome
      rw [← hCandidate]
      simp [nextCandidate, hCurrent, nextEntry, hGone, hNotWaiting current hCurrent, hNotIdle]
    exact ⟨hKept, nextCandidate_of_mem hKept hCurrent⟩
  · have hReadyHead : AtHead ready := by
      intro current hCurrent hMem
      rw [hSame] at hCurrent
      have hIdle := (hValid.current current hCurrent).resolve_left (hAtHead current hCurrent)
      exact ((hPass.queues hValid.queues).idle current (hPass.idle.trans hIdle)).1 hMem
    obtain ⟨candidate, hEntry⟩ := Option.ne_none_iff_exists'.mp hSome
    rw [hRun, hEntry]
    exact (nextCandidate_of_atHead hReadyHead (ne_nil_of_mem hThread) hNotWaiting
      (hCandidate.trans hEntry)).symm

theorem Blocked.rests {waiter : Option Waiter} {other : Tid} (h : Blocked s t other waiter)
    (hCalm : s.currentEntry = some other → following other s.runQueue = []) : Rests s t where
  drift := ⟨[], s.runQueue.erase other, h.run, erase_sublist, by simp⟩
  current := by
    by_cases hLost : other ∈ s.runQueue ∧ s.currentEntry = some other
    · refine Or.inr ⟨by rw [h.current, if_pos hLost], fun current hCurrent => ?_⟩
      cases hLost.2.symm.trans hCurrent
      exact hCalm hCurrent
    · refine Or.inl ⟨by rw [h.current, if_neg hLost], fun current hCurrent hMem => ?_⟩
      rw [h.run]
      refine (mem_erase_of_ne ?_).mpr hMem
      rintro rfl
      exact hLost ⟨hMem, hCurrent⟩
  atHead hAtHead current hCurrent hMem := by
    rw [h.run] at hMem
    rw [h.current] at hCurrent
    split at hCurrent
    · cases hCurrent
    · exact hAtHead current hCurrent (mem_of_mem_erase hMem)

theorem Rests.of_same (hRun : t.runQueue = s.runQueue) (hCurrent : t.currentEntry = s.currentEntry) :
    Rests s t where
  drift := ⟨[], s.runQueue, hRun, List.Sublist.refl _, by simp⟩
  current := Or.inl ⟨hCurrent, fun current _ hMem => by rw [hRun]; exact hMem⟩
  atHead hAtHead := by
    rw [AtHead, hRun, hCurrent]
    exact hAtHead

theorem rests_add (h : s.Valid) (type : ThreadType) (priority : ThreadPriority) (process : Pid)
    (cpuState : Nat) : Rests s (s.add type priority process cpuState) := by
  cases priority with
  | idle => exact Rests.of_same rfl rfl
  | normal =>
    have hNew : s.taskIdCounter ∉ s.runQueue := fun hMem =>
      Int.lt_irrefl _ (h.queues.run_fresh _ hMem)
    refine ⟨⟨[s.taskIdCounter], s.runQueue, rfl, List.Sublist.refl _, ?_⟩,
      Or.inl ⟨rfl, fun current _ hMem => mem_cons_of_mem _ hMem⟩, ?_⟩
    · intro other hOther
      rw [mem_singleton.mp hOther]
      exact hNew
    · intro hAtHead current hCurrent hMem
      have hIdle := (h.current current hCurrent).resolve_left (hAtHead current hCurrent)
      rcases mem_cons.mp hMem with rfl | hMem
      · exact Int.lt_irrefl _ (h.queues.idle_fresh _ hIdle)
      · exact hAtHead current hCurrent hMem

theorem schedule_of_schedules (hEvent : event.Schedules s) (hStep : Step s event t) :
    ∃ states checks, { s with cpuStates := states }.schedule checks = some t := by
  cases event with
  | schedule checks => exact ⟨s.cpuStates, checks, hStep⟩
  | save address state checks =>
    have hNone : s.currentEntry = none := hEvent
    refine ⟨Function.update s.cpuStates address state, checks, ?_⟩
    simpa [Step, execute, save, hNone] using hStep
  | _ => exact hEvent.elim

theorem turns_of_schedules (hValid : s.Valid) (hStep : Step s event t) (hCalm : Calm s event)
    (hEvent : event.Schedules s) (hBefore : thread ∈ s.runQueue) (hStays : thread ∈ t.runQueue) :
    Turns s t := by
  obtain ⟨states, checks, hSchedule⟩ := schedule_of_schedules hEvent hStep
  have hTurns := turns_of_schedule (hValid.withStates states) (hCalm.1 hEvent) hBefore hStays
    hSchedule
  exact ⟨hTurns.drift, hTurns.follows, hTurns.begins⟩

theorem rests_of_not_schedules (hValid : s.Valid) (hStep : Step s event t) (hCalm : Calm s event)
    (hEvent : ¬event.Schedules s) : Rests s t := by
  cases step_effect hValid.queues hStep with
  | schedule _ _ hSchedules _ => exact absurd hSchedules hEvent
  | block other waiter _ hBlocks hBlocked => exact hBlocked.rests (hCalm.2 other hBlocks)
  | add type priority process cpuState _ _ hAdd =>
    subst hAdd
    exact rests_add hValid type priority process cpuState
  | quiet hQuiet => exact Rests.of_same hQuiet.run hQuiet.current

end Steps

section Fairness

variable {run : InfiniteRun Step} {since n : Nat} {thread : Tid}

/-- From some point on the run is calm and the thread is in the run queue. -/
structure Stays (run : InfiniteRun Step) (since : Nat) (thread : Tid) : Prop where
  valid : ∀ n, (run.states n).Valid
  schedules : InfinitelyOften fun n => (run.labels n).Schedules (run.states n)
  calm : ∀ n, since ≤ n → Calm (run.states n) (run.labels n)
  stays : ∀ n, since ≤ n → thread ∈ (run.states n).runQueue

section

variable (h : Stays run since thread) (hSince : since ≤ n)

include h hSince

theorem Stays.rests (hEvent : ¬(run.labels n).Schedules (run.states n)) :
    Rests (run.states n) (run.states (n + 1)) :=
  rests_of_not_schedules (h.valid n) (run.steps n) (h.calm n hSince) hEvent

theorem Stays.turns (hEvent : (run.labels n).Schedules (run.states n)) :
    Turns (run.states n) (run.states (n + 1)) :=
  turns_of_schedules (h.valid n) (run.steps n) (h.calm n hSince) hEvent (h.stays n hSince)
    (h.stays (n + 1) (by omega))

/-- The thread comes closer to its turn with every call of `schedule`. -/
theorem Stays.selects : ∃ m, n ≤ m ∧ Selects run m thread := by
  refine leadsTo_of_measure (fun m => since ≤ m) (fun m => rank thread (run.states m)) h.schedules
    (fun m hm hEvent => ?_) (fun m hm hEvent => ?_) hSince
  · exact .inr ⟨by omega, (h.rests hm hEvent).rank_le (h.valid m) (h.stays (m + 1) (by omega))⟩
  · rcases (h.turns hm hEvent).rank_lt (h.valid m) (h.valid (m + 1)) (h.stays (m + 1) (by omega))
      with hSelected | hLess
    · exact .inl ⟨hEvent, hSelected⟩
    · exact .inr ⟨by omega, hLess⟩

end

/-- In a run that is calm from some point on, every thread that stays in the
run queue is selected again and again. -/
theorem staying_thread_selected {cpuStates : Nat → ProcessorState} {userWords : Pid → Nat → Nat}
    {earlier : List Event} (hStart : Run Step (new cpuStates userWords) earlier (run.states 0))
    (hSchedules : InfinitelyOften fun n => (run.labels n).Schedules (run.states n))
    (hCalm : ∀ n, since ≤ n → Calm (run.states n) (run.labels n))
    (hStays : ∀ n, since ≤ n → thread ∈ (run.states n).runQueue) :
    InfinitelyOften fun n => Selects run n thread := by
  have h : Stays run since thread :=
    { valid := run.invariant (run_valid hStart) fun _ _ _ hValid hStep => step_valid hValid hStep
      schedules := hSchedules
      calm := hCalm
      stays := hStays }
  intro n
  obtain ⟨m, hm, hDone⟩ := h.selects (n := n + since) (by omega)
  exact ⟨m, by omega, hDone⟩

end Fairness

section Examples

/-- The idle thread and two others, of which the last one added runs. -/
def twoThreads : List Event :=
  [.add .main .idle 0 0, .add .main .normal 1 0, .add .main .normal 2 0, .schedule fun _ => .wait]

structure Ready (s : Scheduler) : Prop where
  valid : s.Valid
  run : s.runQueue = [2, 1]
  wait : s.waitQueue = []
  current : s.currentEntry = some 1 ∨ s.currentEntry = some 2
  alive : (s.threads 1).alive = true ∧ (s.threads 2).alive = true

/-- Thread 2 waits for an object and no thread is current. -/
structure Asleep (s : Scheduler) : Prop where
  valid : s.Valid
  run : s.runQueue = [1]
  wait : s.waitQueue = [2]
  current : s.currentEntry = none
  waiter : (s.threads 2).waitManager = some (.object 5)
  alive : (s.threads 1).alive = true ∧ (s.threads 2).alive = true

theorem twoThreads_ready : Ready (replay execute (new default default) twoThreads) ∧
      (replay execute (new default default) twoThreads).currentEntry = some 2 :=
  ⟨⟨run_valid (run_replay rfl), rfl, rfl, Or.inr rfl, rfl, rfl⟩, rfl⟩

variable {s : Scheduler}

theorem Ready.schedule (h : Ready s) : ∃ t, Step s (.schedule fun _ => .wait) t ∧ Ready t := by
  have hResult : ∃ t, s.schedule (fun _ => .wait) = some t ∧ t.runQueue = [2, 1] ∧
      t.waitQueue = [] ∧ (t.currentEntry = some 1 ∨ t.currentEntry = some 2) := by
    have hFirst := h.valid.queues.runnable 1 (by simp [h.run])
    have hSecond := h.valid.queues.runnable 2 (by simp [h.run])
    rcases h.current with hCurrent | hCurrent <;>
      simp [Scheduler.schedule, processWaitQueue, h.wait, processWaitQueueFrom, selectNext,
        nextCandidate, hCurrent, nextEntry, h.run, following, hFirst, hSecond, checkAliveState,
        h.alive, finishSwitch]
  obtain ⟨t, hStep, hRun, hWait, hCurrent⟩ := hResult
  obtain ⟨hWakes, hValid, -⟩ := schedule_spec h.valid hStep
  exact ⟨t, hStep, hValid, hRun, hWait, hCurrent,
    (hWakes.alive 1).trans h.alive.1, (hWakes.alive 2).trans h.alive.2⟩

/-- Two threads that never block take turns. -/
theorem staying_thread_selected_two_threads :
    ∃ run : InfiniteRun Step, Run Step (new default default) twoThreads (run.states 0) ∧
      (InfinitelyOften fun n => Selects run n 1) ∧ InfinitelyOften fun n => Selects run n 2 := by
  obtain ⟨run, hStart, hLabels, hReady⟩ :=
    InfiniteRun.of_progress (fun _ => Ready) (fun _ => Event.schedule fun _ => .wait)
      twoThreads_ready.1 fun _ _ h => h.schedule
  have hReached : Run Step (new default default) twoThreads (run.states 0) := by
    rw [hStart]
    exact run_replay rfl
  have hSchedules : InfinitelyOften fun n => (run.labels n).Schedules (run.states n) :=
    fun n => ⟨n, le_refl n, by rw [hLabels]; trivial⟩
  have hCalm : ∀ n, 0 ≤ n → Calm (run.states n) (run.labels n) := by
    intro n _
    rw [hLabels]
    refine ⟨fun _ other hMem => ?_, fun _ hBlocks => hBlocks.elim⟩
    rw [(hReady n).run] at hMem
    simp only [mem_cons, not_mem_nil, or_false] at hMem
    rcases hMem with rfl | rfl
    · exact (hReady n).alive.2
    · exact (hReady n).alive.1
  refine ⟨run, hReached, ?_, ?_⟩
  · exact staying_thread_selected hReached hSchedules hCalm fun n _ => by simp [(hReady n).run]
  · exact staying_thread_selected hReached hSchedules hCalm fun n _ => by simp [(hReady n).run]

theorem Ready.block (h : Ready s) (hCurrent : s.currentEntry = some 2) :
    ∃ t, Step s (.wait 5) t ∧ Asleep t := by
  have hBlocked := wait_blocked h.valid.queues 2 (some (.object 5))
  refine ⟨s.wait 2 (some (.object 5)), ?_, h.valid.blocked hBlocked, ?_, ?_, ?_,
    hBlocked.waiter, ?_, ?_⟩
  · simp [Step, execute, running, hCurrent, h.run]
  · simp [hBlocked.run, h.run]
  · simp [hBlocked.wait, h.run, h.wait]
  · simp [hBlocked.current, h.run, hCurrent]
  · rw [hBlocked.others 1 (by decide)]
    exact h.alive.1
  · unfold Scheduler.wait
    split <;> simp [threads_moveToWaitQueue, h.alive.2]

/-- The object is ready at once: thread 2 is put in front of the queue and
selected, while thread 1 is passed over. -/
theorem Asleep.schedule (h : Asleep s) :
    ∃ t, Step s (.schedule fun _ => .stop) t ∧ Ready t ∧ t.currentEntry = some 2 := by
  have hResult : ∃ t, s.schedule (fun _ => .stop) = some t ∧ t.runQueue = [2, 1] ∧
      t.waitQueue = [] ∧ t.currentEntry = some 2 := by
    simp [Scheduler.schedule, processWaitQueue, h.wait, processWaitQueueFrom, nextEntry, h.run,
      checkAliveState, h.alive, checkWaitingState, h.waiter, unwait, moveToRunQueue,
      removeFromQueue, clearWaiter, selectNext, nextCandidate, h.current, finishSwitch]
  obtain ⟨t, hStep, hRun, hWait, hCurrent⟩ := hResult
  obtain ⟨hWakes, hValid, -⟩ := schedule_spec h.valid hStep
  exact ⟨t, hStep, ⟨hValid, hRun, hWait, Or.inr hCurrent,
    (hWakes.alive 1).trans h.alive.1, (hWakes.alive 2).trans h.alive.2⟩, hCurrent⟩

/-- A thread that waits again and again for something that is ready at once is
selected every time. A live thread behind it in the run queue never runs. -/
theorem woken_thread_starves_neighbour :
    ∃ run : InfiniteRun Step, Run Step (new default default) twoThreads (run.states 0) ∧
      (InfinitelyOften fun n => (run.labels n).Schedules (run.states n)) ∧
      (∀ n, 1 ∈ (run.states n).runQueue ∧ ((run.states n).threads 1).alive = true) ∧
      ∀ n, ¬Selects run n 1 := by
  let labels : Nat → Event := fun n => if n % 2 = 0 then .wait 5 else .schedule fun _ => .stop
  let Inv : Nat → Scheduler → Prop := fun n s =>
    if n % 2 = 0 then Ready s ∧ s.currentEntry = some 2 else Asleep s
  have hProgress : ∀ n s, Inv n s → ∃ t, Step s (labels n) t ∧ Inv (n + 1) t := by
    intro n s hInv
    by_cases hEven : n % 2 = 0
    · have hOdd : ¬(n + 1) % 2 = 0 := by omega
      simp only [Inv, labels, if_pos hEven, if_neg hOdd] at hInv ⊢
      exact hInv.1.block hInv.2
    · have hNext : (n + 1) % 2 = 0 := by omega
      simp only [Inv, labels, if_neg hEven, if_pos hNext] at hInv ⊢
      exact hInv.schedule
  obtain ⟨run, hStart, hLabels, hInv⟩ :=
    InfiniteRun.of_progress Inv labels twoThreads_ready hProgress
  refine ⟨run, ?_, ?_, ?_, ?_⟩
  · rw [hStart]
    exact run_replay rfl
  · intro n
    refine ⟨2 * n + 1, by omega, ?_⟩
    have hOdd : ¬(2 * n + 1) % 2 = 0 := by omega
    simp only [hLabels, labels, if_neg hOdd]
    trivial
  · intro n
    have h := hInv n
    by_cases hEven : n % 2 = 0
    · simp only [Inv, if_pos hEven] at h
      exact ⟨by simp [h.1.run], h.1.alive.1⟩
    · simp only [Inv, if_neg hEven] at h
      exact ⟨by simp [h.run], h.alive.1⟩
  · rintro n ⟨-, hSelected⟩
    have h := hInv (n + 1)
    by_cases hEven : (n + 1) % 2 = 0
    · simp only [Inv, if_pos hEven] at h
      cases h.2.symm.trans hSelected
    · simp only [Inv, if_neg hEven] at h
      cases h.current.symm.trans hSelected

end Examples

end Kernel.Scheduler
