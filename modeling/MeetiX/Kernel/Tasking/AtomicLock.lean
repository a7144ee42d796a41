import MeetiX.Kernel.Tasking.WaitPass

/-! Atoms as locks. A thread acquires a lock in its system call `atomicWait` if the atom is clear,
or when the scheduler later finds it clear. Each check of a pass over the wait queue sees the atom
as the one before has left it. -/
namespace Kernel.AtomicLock

open Base Function Option

/-- The data of the system call, without the result. -/
structure SyscallAtomicLock where
  atom1 : Nat
  atom2 : Option Nat
  setOnFinish : Bool
  tryOnly : Bool

structure WaiterAtomicWait where
  atom1 : Nat
  atom2 : Option Nat
  setOnFinish : Bool

structure State where
  scheduler : Scheduler
  /-- The bytes that the pointers to atoms lead to. -/
  atoms : Nat → UInt8
  /-- The waiter objects that wait for atoms, by their addresses. -/
  waiters : Nat → Option WaiterAtomicWait
  /-- For each atom the threads between a successful acquire and the release. The kernel does not
  keep this list. -/
  holders : Nat → List Tid

/-- All atoms are clear and nobody waits for one. -/
def State.new (scheduler : Scheduler) : State where
  scheduler := scheduler
  atoms := fun _ => 0
  waiters := fun _ => none
  holders := fun _ => []

namespace State

section Calls

variable (s : State)

/-- `*atom1 && (!atom2 || *atom2)`. -/
def areSet (atom1 : Nat) (atom2 : Option Nat) : Bool :=
  s.atoms atom1 != 0 && atom2.all fun atom => s.atoms atom != 0

/-- `*atom = true`, which acquires it for the thread. -/
def setAtom (thread : Tid) (atom : Nat) : State :=
  { s with
    atoms := update s.atoms atom 1
    holders := update s.holders atom (thread :: s.holders atom) }

def setAtoms (thread : Tid) (atom1 : Nat) (atom2 : Option Nat) : State :=
  match atom2 with
  | none => s.setAtom thread atom1
  | some atom => (s.setAtom thread atom1).setAtom thread atom

/-- `WaiterAtomicWait::checkWaiting`, and whatever other waiters answer. -/
def checkWaiting (thread : Tid) (others : Tid → Scheduler.Check) : Scheduler.Check × State :=
  match (s.scheduler.threads thread).waitManager with
  | some (.object address) =>
    match s.waiters address with
    | none => (others thread, s)
    | some waiter =>
      if s.areSet waiter.atom1 waiter.atom2 then (.wait, s)
      else if waiter.setOnFinish then (.stop, s.setAtoms thread waiter.atom1 waiter.atom2)
      else (.stop, s)
  | _ => (others thread, s)

/-- One round of `_processWaitQueue`. -/
def visit (others : Tid → Scheduler.Check) (thread : Tid) : Option State :=
  match s.scheduler.checkAliveState thread with
  | (false, scheduler) => some { s with scheduler := scheduler }
  | (true, _) =>
    let checked := s.checkWaiting thread others
    (s.scheduler.checkWaitingState thread checked.1).map fun scheduler =>
      { checked.2 with scheduler := scheduler }

end Calls

/-- The loop of `_processWaitQueue` from the entry it stands on. -/
def processWaitQueueFrom (others : Tid → Scheduler.Check) : Nat → State → Option Tid → Option State
  | _, s, none => some { s with scheduler := { s.scheduler with currentEntry := none } }
  | 0, _, some _ => none
  | fuel + 1, s, some thread =>
    let s := { s with scheduler := { s.scheduler with currentEntry := some thread } }
    match s.scheduler.nextEntry thread with
    | none => none
    | some next => (s.visit others thread).bind fun s => processWaitQueueFrom others fuel s next

def schedule (s : State) (others : Tid → Scheduler.Check) : Option State :=
  match processWaitQueueFrom others s.scheduler.waitQueue.length s s.scheduler.waitQueue.head? with
  | none => none
  | some processed =>
    (Scheduler.selectNext (processed.scheduler.runQueue.length + 1)
      { processed.scheduler with currentEntry := s.scheduler.currentEntry }).map fun scheduler =>
        { processed with scheduler := scheduler }

/-- The system call `atomicWait` with the address of the waiter it may create. The first component
is what it writes to `wasSet`. -/
def atomicWait (s : State) (thread : Tid) (data : SyscallAtomicLock) (waiter : Nat)
    (others : Tid → Scheduler.Check) : Option (Option Bool × State) :=
  if data.tryOnly then
    if s.areSet data.atom1 data.atom2 then some (some false, s)
    else some (some true, s.setAtoms thread data.atom1 data.atom2)
  else if s.areSet data.atom1 data.atom2 then
    ({ s with
      scheduler := s.scheduler.wait thread (some (.object waiter))
      waiters := update s.waiters waiter
        (some ⟨data.atom1, data.atom2, data.setOnFinish⟩) }.schedule others).map fun s => (none, s)
  else if data.setOnFinish then some (none, s.setAtoms thread data.atom1 data.atom2)
  else some (none, s)

def release (s : State) (thread : Tid) (atom : Nat) : Option State :=
  if thread ∈ s.holders atom then
    some { s with
      atoms := update s.atoms atom 0
      holders := update s.holders atom ((s.holders atom).erase thread) }
  else none

end State

/-- What happens on the core. The events of the scheduler are those that never call `schedule`. -/
inductive Op
  | atomicWait (data : SyscallAtomicLock) (waiter : Nat) (others : Tid → Scheduler.Check)
  | release (atom : Nat)
  | schedule (others : Tid → Scheduler.Check)
  | save (address : Nat) (state : ProcessorState) (others : Tid → Scheduler.Check)
  | event (event : Scheduler.Event)

def mayCallSchedule : Scheduler.Event → Bool
  | .schedule _ => true
  | .save _ _ _ => true
  | _ => false

def execute (s : State) : Op → Option State
  | .atomicWait data waiter others =>
    s.scheduler.running.bind fun thread => (s.atomicWait thread data waiter others).map Prod.snd
  | .release atom => s.scheduler.running.bind fun thread => s.release thread atom
  | .schedule others => s.schedule others
  | .save address state others =>
    match s.scheduler.currentEntry with
    | some _ =>
      (s.scheduler.save address state others).map fun scheduler =>
        { s with scheduler := scheduler }
    | none =>
      { s with
        scheduler := { s.scheduler with
          cpuStates := update s.scheduler.cpuStates address state } }.schedule others
  | .event event =>
    if mayCallSchedule event then none
    else (s.scheduler.execute event).map fun scheduler => { s with scheduler := scheduler }

def Step (s : State) (op : Op) (t : State) : Prop := execute s op = some t

/-- The call uses the atom alone or not at all. -/
def Op.Alone (lock : Nat) : Op → Prop
  | .atomicWait data _ _ => data.atom2 ≠ some lock ∧ (data.atom1 = lock → data.atom2 = none)
  | _ => True

/-- At most one thread holds the lock, and the atom is set while one does. -/
structure Exclusive (lock : Nat) (s : State) : Prop where
  waiters : ∀ address waiter, s.waiters address = some waiter →
    waiter.atom2 ≠ some lock ∧ (waiter.atom1 = lock → waiter.atom2 = none)
  single : (s.holders lock).length ≤ 1
  set_iff : s.atoms lock ≠ 0 ↔ s.holders lock ≠ []

section Facts

variable {s t : State} {lock : Nat} {thread : Tid} {others : Tid → Scheduler.Check}

variable (h : Exclusive lock s)

include h

theorem Exclusive.withScheduler (scheduler : Scheduler) :
    Exclusive lock { s with scheduler := scheduler } :=
  ⟨h.waiters, h.single, h.set_iff⟩

theorem Exclusive.setOther {atom : Nat} (hNe : lock ≠ atom) :
    Exclusive lock (s.setAtom thread atom) := by
  unfold State.setAtom
  refine ⟨h.waiters, ?_, ?_⟩
  · dsimp only
    rw [update_of_ne hNe]
    exact h.single
  · dsimp only
    rw [update_of_ne hNe, update_of_ne hNe]
    exact h.set_iff

/-- Whoever finds the lock clear and sets it is the only holder. -/
theorem Exclusive.setAtoms {atom1 : Nat} {atom2 : Option Nat}
    (hAlone : atom2 ≠ some lock ∧ (atom1 = lock → atom2 = none))
    (hClear : s.areSet atom1 atom2 = false) : Exclusive lock (s.setAtoms thread atom1 atom2) := by
  by_cases hLock : atom1 = lock
  · subst hLock
    rw [hAlone.2 rfl] at hClear ⊢
    have hZero : s.atoms atom1 = 0 := by simpa [State.areSet] using hClear
    have hFree : s.holders atom1 = [] := by
      by_contra hHeld
      exact h.set_iff.mpr hHeld hZero
    refine ⟨h.waiters, ?_, ?_⟩
    · simp [State.setAtoms, State.setAtom, hFree]
    · simp [State.setAtoms, State.setAtom]
  · cases atom2 with
    | none => exact h.setOther (Ne.symm hLock)
    | some atom =>
      have hOther : lock ≠ atom := by
        rintro rfl
        exact hAlone.1 rfl
      exact (h.setOther (Ne.symm hLock)).setOther hOther

theorem Exclusive.checkWaiting : Exclusive lock (s.checkWaiting thread others).2 := by
  unfold State.checkWaiting
  split
  · split
    · exact h
    · next waiter hWaiter =>
        split
        · exact h
        · next hClear =>
            split
            · exact h.setAtoms (h.waiters _ waiter hWaiter) (Bool.eq_false_iff.mpr hClear)
            · exact h
  · exact h

theorem Exclusive.visit (hVisit : s.visit others thread = some t) : Exclusive lock t := by
  unfold State.visit at hVisit
  split at hVisit
  · cases hVisit
    exact h.withScheduler _
  · obtain ⟨scheduler, -, rfl⟩ := map_eq_some_iff.mp hVisit
    exact h.checkWaiting.withScheduler scheduler

theorem Exclusive.processWaitQueueFrom {fuel : Nat} {entry : Option Tid}
    (hPass : State.processWaitQueueFrom others fuel s entry = some t) : Exclusive lock t := by
  induction fuel generalizing s entry with
  | zero =>
    cases entry with
    | none =>
      cases hPass
      exact h.withScheduler _
    | some thread => cases hPass
  | succ fuel ih =>
    cases entry with
    | none =>
      cases hPass
      exact h.withScheduler _
    | some thread =>
      simp only [State.processWaitQueueFrom] at hPass
      split at hPass
      · cases hPass
      · obtain ⟨u, hVisit, hRest⟩ := bind_eq_some_iff.mp hPass
        exact ih ((h.withScheduler _).visit hVisit) hRest

theorem Exclusive.schedule (hSchedule : s.schedule others = some t) : Exclusive lock t := by
  unfold State.schedule at hSchedule
  split at hSchedule
  · cases hSchedule
  · next processed hProcessed =>
      obtain ⟨scheduler, -, rfl⟩ := map_eq_some_iff.mp hSchedule
      exact (h.processWaitQueueFrom hProcessed).withScheduler scheduler

/-- A lock that is waited for alone is never given to two threads. -/
theorem Exclusive.atomicWait {data : SyscallAtomicLock} {waiter : Nat}
    {answer : Option Bool × State}
    (hAlone : data.atom2 ≠ some lock ∧ (data.atom1 = lock → data.atom2 = none))
    (hCall : s.atomicWait thread data waiter others = some answer) : Exclusive lock answer.2 := by
  unfold State.atomicWait at hCall
  split at hCall
  · split at hCall
    · cases hCall
      exact h
    · next hClear =>
        cases hCall
        exact h.setAtoms hAlone (Bool.eq_false_iff.mpr hClear)
  · split at hCall
    · obtain ⟨scheduled, hSchedule, rfl⟩ := map_eq_some_iff.mp hCall
      have hWaits : Exclusive lock
          { s with
            scheduler := s.scheduler.wait thread (some (.object waiter))
            waiters := update s.waiters waiter
              (some ⟨data.atom1, data.atom2, data.setOnFinish⟩) } := by
        refine ⟨fun address other hOther => ?_, h.single, h.set_iff⟩
        dsimp only at hOther
        rw [update_apply] at hOther
        split at hOther
        · cases hOther
          exact hAlone
        · exact h.waiters address other hOther
      exact hWaits.schedule hSchedule
    · next hClear =>
        split at hCall
        · cases hCall
          exact h.setAtoms hAlone (Bool.eq_false_iff.mpr hClear)
        · cases hCall
          exact h

/-- The only holder has released the lock. -/
theorem Exclusive.release {atom : Nat}
    (hRelease : s.release thread atom = some t) : Exclusive lock t := by
  unfold State.release at hRelease
  split at hRelease
  · next hHolds =>
      cases hRelease
      by_cases hLock : lock = atom
      · subst hLock
        have hOnly : s.holders lock = [thread] := by
          obtain ⟨first, rest, hList⟩ := List.exists_cons_of_ne_nil (List.ne_nil_of_mem hHolds)
          have hLength := h.single
          rw [hList, List.length_cons] at hLength
          have hRest : rest = [] := List.eq_nil_of_length_eq_zero (by omega)
          rw [hList, hRest] at hHolds ⊢
          rw [List.mem_singleton.mp hHolds]
        refine ⟨h.waiters, ?_, ?_⟩
        · simp [hOnly]
        · simp [hOnly]
      · refine ⟨h.waiters, ?_, ?_⟩
        · dsimp only
          rw [update_of_ne hLock]
          exact h.single
        · dsimp only
          rw [update_of_ne hLock, update_of_ne hLock]
          exact h.set_iff
  · cases hRelease

theorem Step.exclusive {op : Op} (hAlone : op.Alone lock)
    (hStep : Step s op t) : Exclusive lock t := by
  unfold Step at hStep
  cases op with
  | atomicWait data waiter others =>
    obtain ⟨thread, -, hCall⟩ := bind_eq_some_iff.mp hStep
    obtain ⟨answer, hAnswer, rfl⟩ := map_eq_some_iff.mp hCall
    exact h.atomicWait hAlone hAnswer
  | release atom =>
    obtain ⟨thread, -, hRelease⟩ := bind_eq_some_iff.mp hStep
    exact h.release hRelease
  | schedule others => exact h.schedule hStep
  | save address state others =>
    simp only [execute] at hStep
    split at hStep
    · obtain ⟨scheduler, -, rfl⟩ := map_eq_some_iff.mp hStep
      exact h.withScheduler scheduler
    · exact (h.withScheduler _).schedule hStep
  | event event =>
    simp only [execute] at hStep
    split at hStep
    · cases hStep
    · obtain ⟨scheduler, -, rfl⟩ := map_eq_some_iff.mp hStep
      exact h.withScheduler scheduler

end Facts

/-- Threads that use an atom alone as a lock, in any interleaving of calls, checks and releases. -/
theorem lock_exclusive {scheduler : Scheduler} {ops : List Op} {s : State} (lock : Nat)
    (run : Run Step (.new scheduler) ops s) (hAlone : ∀ op ∈ ops, op.Alone lock) :
    (s.holders lock).length ≤ 1 ∧ (s.atoms lock ≠ 0 ↔ s.holders lock ≠ []) := by
  have hStart : Exclusive lock (.new scheduler) :=
    ⟨by rintro _ _ ⟨⟩, Nat.zero_le _, by simp [State.new]⟩
  have hEnd : Exclusive lock s :=
    run.invariant_of_mem hStart fun _ op _ hMem h hStep => hStep.exclusive h (hAlone op hMem)
  exact ⟨hEnd.single, hEnd.set_iff⟩

def twoThreads : Scheduler :=
  replay Scheduler.execute (Scheduler.new default default)
    [.add .main .idle 0 0, .add .main .normal 1 0, .add .main .normal 2 0, .schedule fun _ => .wait]

/-- Thread 2 takes the lock, thread 1 has to wait for it, and takes it in a check of its waiter
after thread 2 has released it. -/
def handOver : List Op :=
  [.atomicWait ⟨7, none, true, false⟩ 100 (fun _ => .wait), .schedule (fun _ => .wait),
    .atomicWait ⟨7, none, true, false⟩ 101 (fun _ => .wait), .release 7, .schedule (fun _ => .wait)]

theorem lock_exclusive_handOver : ∃ s, Run Step (.new twoThreads) handOver s ∧ s.holders 7 = [1] ∧
      ((s.holders 7).length ≤ 1 ∧ (s.atoms 7 ≠ 0 ↔ s.holders 7 ≠ [])) := by
  have hRun : Run Step (.new twoThreads) handOver (replay execute (.new twoThreads) handOver) :=
    run_replay (by decide)
  refine ⟨_, hRun, by decide, lock_exclusive 7 hRun ?_⟩
  rintro op hOp
  simp only [handOver, List.mem_cons, List.not_mem_nil, or_false] at hOp
  rcases hOp with rfl | rfl | rfl | rfl | rfl
  all_goals simp [Op.Alone]

end Kernel.AtomicLock
