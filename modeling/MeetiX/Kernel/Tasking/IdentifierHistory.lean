import MeetiX.Base.Run
import MeetiX.Kernel.Tasking.Identifiers

/-! Whole histories of identifiers. A registered identifier belongs to one thread alone as long as
nobody gets it otherwise: what a sub thread registers is appended to what it has, and new threads
get their identifiers without a look at the others. -/
namespace Kernel.Identifiers

open Base Function List Option

/-- The threads, and which of them have their identifiers from a registration. -/
structure System where
  tasking : Tasking
  registered : Tid → Bool

variable (s : System)

def record : Event → Tid → Bool
  | .register task newIdentifier =>
    if (s.tasking.registerTaskForIdentifier task newIdentifier).1 then
      update s.registered task true
    else s.registered
  | .attachCreatedProcess task => update s.registered task false
  | .spawnFromRamdisk _ _ _ => update s.registered s.tasking.taskIdCounter false
  | .createEmptyProcess => update s.registered s.tasking.taskIdCounter false
  | .createThread _ _ _ => update s.registered s.tasking.taskIdCounter false
  | .fork => update s.registered s.tasking.taskIdCounter false
  | .createProcessVm86 => update s.registered s.tasking.taskIdCounter false
  | _ => s.registered

variable (event : Event)

def Step (t : System) : Prop :=
  execute s.tasking event = some t.tasking ∧ t.registered = record s event

theorem NamedThread.alive_setIdentifier (thread : NamedThread) (name : Option CString) :
    (thread.setIdentifier name).alive = thread.alive := by
  cases name with
  | none => rfl
  | some new =>
    simp only [setIdentifier]
    split <;> rfl

namespace Tasking

section Lookup

variable {s : Tasking} {identifier : CString} {thread : Tid}

theorem hasIdentifier_iff : s.hasIdentifier identifier thread = true ↔
    ∃ named, s.threads thread = some named ∧ named.alive = true ∧
      named.identifier = some identifier := by
  unfold hasIdentifier
  cases s.threads thread <;> simp

/-- The loops over the cores and the queues are one search through all queued threads. -/
theorem getTaskByIdentifier_eq (s : Tasking) (identifier : CString) :
    s.getTaskByIdentifier identifier = s.queued.find? (s.hasIdentifier identifier) := by
  rw [getTaskByIdentifier, queued, find?_flatMap]
  congr 1
  funext scheduler
  cases scheduler with
  | none => rfl
  | some queues => rw [find?_append]

theorem addTask_spec {t : Tasking} {task : Tid} {enforced : Option Nat}
    (h : s.addTask task enforced = some t) :
    t.threads = s.threads ∧ t.taskIdCounter = s.taskIdCounter ∧
      (∀ other ∈ t.queued, other = task ∨ other ∈ s.queued) ∧ ∀ other ∈ s.queued, other ∈ t.queued := by
  obtain ⟨core, -, h⟩ := bind_eq_some_iff.mp h
  obtain ⟨scheduler, hScheduler, h⟩ := bind_eq_some_iff.mp h
  obtain ⟨queues, hQueues, h⟩ := bind_eq_some_iff.mp h
  cases hQueues
  cases h
  unfold add
  split
  · exact ⟨rfl, rfl, fun _ => .inr, fun _ => id⟩
  · obtain ⟨hCore, hGet⟩ := List.getElem?_eq_some_iff.mp hScheduler
    obtain ⟨before, after, hSplit, -, (hSet : s.schedulers.set core
      (some { queues with runQueue := task :: queues.runQueue }) = _)⟩ := exists_of_set hCore
    rw [hGet] at hSplit
    have hMem : ∀ other, other ∈ queued { s with
        schedulers := s.schedulers.set core (some { queues with runQueue := task :: queues.runQueue }) } ↔
        other = task ∨ other ∈ s.queued := by
      intro other
      rw [queued, queued, hSet, hSplit]
      simp only [flatMap_append, flatMap_cons, mem_append,
        mem_cons]
      tauto
    exact ⟨rfl, rfl, fun other => (hMem other).mp, fun other hOther => (hMem other).mpr (.inr hOther)⟩

end Lookup

/-- The threads have numbers below the counter, and those in queues exist. -/
structure Valid (s : Tasking) : Prop where
  lt_counter : ∀ thread, (s.threads thread).isSome → thread < s.taskIdCounter
  queued_exists : ∀ thread ∈ s.queued, (s.threads thread).isSome

/-- What an event does to the threads. It gives an identifier to one of them at most, which may be
new and may come into a queue. The others keep theirs, none comes back to life, and only deleted
ones leave a queue. -/
structure Changes (s t : Tasking) (new : Option Tid) (identifier : Option CString) : Prop where
  kept : ∀ other named, t.threads other = some named → new ≠ some other →
    ∃ old, s.threads other = some old ∧ named.identifier = old.identifier ∧
      (named.alive = true → old.alive = true)
  renamed : ∀ other named, t.threads other = some named → new = some other →
    named.identifier = identifier ∧ (named.alive = true →
      other = s.taskIdCounter ∨ ∃ old, s.threads other = some old ∧ old.alive = true)
  new_exists : ∀ other ∈ new, (t.threads other).isSome ∧ other < t.taskIdCounter
  queued_or : ∀ other ∈ t.queued, new = some other ∨ other ∈ s.queued ∧ (t.threads other).isSome
  queued_of : ∀ other ∈ s.queued, t.threads other = none ∨ other ∈ t.queued
  counter_le : s.taskIdCounter ≤ t.taskIdCounter

section Effects

variable {s t : Tasking} {task : Tid} {new : Option Tid} {identifier : Option CString}
variable {thread : NamedThread}

theorem Valid.changes (h : s.Valid) (hChanges : Changes s t new identifier) : t.Valid := by
  constructor
  · intro other hOther
    by_cases hNew : new = some other
    · exact (hChanges.new_exists other hNew).2
    · obtain ⟨named, hNamed⟩ := isSome_iff_exists.mp hOther
      obtain ⟨old, hOld, -⟩ := hChanges.kept other named hNamed hNew
      exact Int.lt_of_lt_of_le (h.lt_counter other (isSome_of_eq_some hOld))
        hChanges.counter_le
  · intro other hOther
    exact (hChanges.queued_or other hOther).elim (fun hNew => (hChanges.new_exists other hNew).1)
      And.right

theorem threads_modifyThread {change : NamedThread → NamedThread} (other : Tid) :
    (s.modifyThread task change).threads other =
      if other = task then (s.threads task).map change else s.threads other := by
  simp [modifyThread, update_apply]

/-- One thread is new or gets another identifier. -/
theorem Changes.ofUpdate (h : s.Valid)
    (hThreads : t.threads = update s.threads task (some thread)) (hQueued : t.queued = s.queued)
    (hCounter : s.taskIdCounter ≤ t.taskIdCounter) (hLess : task < t.taskIdCounter)
    (hAlive : thread.alive = true → task = s.taskIdCounter ∨
      ∃ old, s.threads task = some old ∧ old.alive = true) :
    Changes s t (some task) thread.identifier := by
  have hOther : ∀ other, some task ≠ some other → t.threads other = s.threads other := by
    intro other hNe
    rw [hThreads, update_of_ne fun hEq => hNe (congrArg some hEq.symm)]
  have hNew : t.threads task = some thread := by rw [hThreads, update_self]
  refine ⟨?_, ?_, ?_, ?_, fun _ hMem => .inr (hQueued ▸ hMem), hCounter⟩
  · exact fun other named hNamed hNe => ⟨named, hOther other hNe ▸ hNamed, rfl, id⟩
  · rintro other named hNamed ⟨⟩
    cases hNew.symm.trans hNamed
    exact ⟨rfl, hAlive⟩
  · rintro other ⟨⟩
    exact ⟨isSome_of_eq_some hNew, hLess⟩
  · intro other hMem
    rw [hQueued] at hMem
    refine or_iff_not_imp_left.mpr fun hNe => ⟨hMem, ?_⟩
    rw [hOther other hNe]
    exact h.queued_exists other hMem

theorem Changes.ofNew (h : s.Valid) {thread : NamedThread}
    (hThreads : t.threads = update s.threads s.taskIdCounter (some thread))
    (hQueued : t.queued = s.queued) (hCounter : t.taskIdCounter = s.taskIdCounter + 1) :
    Changes s t (some s.taskIdCounter) thread.identifier :=
  .ofUpdate h hThreads hQueued (by lia) (by lia) fun _ => .inl rfl

theorem Changes.ofPerm (h : s.Valid) (hThreads : t.threads = s.threads)
    (hPerm : t.queued.Perm s.queued) (hCounter : t.taskIdCounter = s.taskIdCounter) :
    Changes s t none none := by
  refine ⟨?_, (fun _ _ _ h => nomatch h), (fun _ h => nomatch h), ?_,
    fun other hOther => .inr (hPerm.mem_iff.mpr hOther), Int.le_of_eq hCounter.symm⟩
  · exact fun other named hNamed _ => ⟨named, hThreads ▸ hNamed, rfl, id⟩
  · intro other hOther
    have hOld := hPerm.mem_iff.mp hOther
    exact .inr ⟨hOld, hThreads ▸ h.queued_exists other hOld⟩

theorem mem_queued_remove {removed : Tid → Bool} {other : Tid} :
    other ∈ (s.remove removed).queued ↔ other ∈ s.queued ∧ removed other = false := by
  simp only [remove, queued, flatMap_map, mem_flatMap]
  constructor
  · rintro ⟨scheduler, hScheduler, hOther⟩
    cases scheduler with
    | none => simp at hOther
    | some queues =>
      simp only [map_some, mem_append, mem_filter, Bool.not_eq_true'] at hOther
      refine ⟨⟨some queues, hScheduler, ?_⟩, hOther.elim And.right And.right⟩
      exact mem_append.mpr (hOther.imp And.left And.left)
  · rintro ⟨⟨scheduler, hScheduler, hOther⟩, hKeep⟩
    refine ⟨scheduler, hScheduler, ?_⟩
    cases scheduler with
    | none => exact hOther
    | some queues =>
      simp only [map_some, mem_append, mem_filter, hKeep]
      simpa using hOther

theorem Changes.remove (h : s.Valid) (removed : Tid → Bool) :
    Changes s (s.remove removed) none none := by
  refine ⟨?_, (fun _ _ _ h => nomatch h), (fun _ h => nomatch h), ?_, ?_, Int.le_refl _⟩
  · intro other named hNamed _
    obtain ⟨-, hOld⟩ := ite_none_left_eq_some.mp hNamed
    exact ⟨named, hOld, rfl, id⟩
  · intro other hOther
    obtain ⟨hOld, hKeep⟩ := mem_queued_remove.mp hOther
    refine .inr ⟨hOld, ?_⟩
    simpa [Tasking.remove, hKeep] using h.queued_exists other hOld
  · intro other hOther
    cases hRemoved : removed other with
    | true => exact .inl (if_pos hRemoved)
    | false => exact .inr (mem_queued_remove.mpr ⟨hOther, hRemoved⟩)

theorem Changes.removeDead (h : s.Valid) (hRemove : s.removeDead task = some t) :
    Changes s t none none := by
  obtain ⟨thread, -, hRemove⟩ := bind_eq_some_iff.mp hRemove
  obtain ⟨-, hRemove⟩ := ite_none_left_eq_some.mp hRemove
  split at hRemove
  all_goals
    cases hRemove
    exact Changes.remove h _

theorem Changes.kill (h : s.Valid) :
    Changes s (s.modifyThread task fun thread => { thread with alive := false }) none none := by
  refine ⟨?_, (fun _ _ _ h => nomatch h), (fun _ h => nomatch h), ?_, fun _ => .inr,
    Int.le_refl _⟩
  · intro other named hNamed _
    rw [threads_modifyThread] at hNamed
    split at hNamed
    · rename_i hSame
      obtain ⟨old, hOld, rfl⟩ := map_eq_some_iff.mp hNamed
      exact ⟨old, hSame ▸ hOld, rfl, by simp⟩
    · exact ⟨named, hNamed, rfl, id⟩
  · intro other hOther
    refine .inr ⟨hOther, ?_⟩
    have hExists := h.queued_exists other hOther
    rw [threads_modifyThread]
    split
    · rename_i hSame
      simpa [← hSame] using hExists
    · exact hExists

theorem Changes.setIdentifier (h : s.Valid)
    (hThread : s.threads task = some thread) (name : NamedThread → Option CString) :
    Changes s (s.modifyThread task fun thread => thread.setIdentifier (name thread)) (some task)
      (thread.setIdentifier (name thread)).identifier := by
  refine .ofUpdate h (by rw [modifyThread, hThread]; rfl) rfl (Int.le_refl _)
    (h.lt_counter task (isSome_of_eq_some hThread)) fun hAlive => ?_
  exact .inr ⟨thread, hThread, thread.alive_setIdentifier _ ▸ hAlive⟩

theorem Changes.addTask {middle : Tasking} {enforced : Option Nat}
    (h : Changes s middle (some task) identifier) (hAdd : middle.addTask task enforced = some t) :
    Changes s t (some task) identifier := by
  obtain ⟨hSame, hCount, hOr, hOf⟩ := addTask_spec hAdd
  refine ⟨?_, ?_, ?_, ?_, ?_, hCount ▸ h.counter_le⟩
  · rw [hSame]
    exact h.kept
  · rw [hSame]
    exact h.renamed
  · rw [hSame, hCount]
    exact h.new_exists
  · rw [hSame]
    intro other hOther
    exact (hOr other hOther).elim (fun hNew => .inl (congrArg some hNew.symm)) (h.queued_or other)
  · rw [hSame]
    exact fun other hOther => (h.queued_of other hOther).imp_right (hOf other)

end Effects

def attachedName (s : Tasking) (thread : NamedThread) : Option CString :=
  (thread.setIdentifier (initialName thread.type (s.sourcePath thread.process)
    ((s.threads thread.process).bind NamedThread.identifier) [])).identifier

def subName (s : Tasking) (process : Pid) (threadName : Option CString) (atNull : CString) :
    CString :=
  ((s.threads process).bind NamedThread.identifier).getD atNull ++ scopeMark ++ threadName.getD []

section Creation

variable {s t : Tasking} {process : Pid}

theorem Changes.spawnFromRamdisk {path : CString} {priority : ThreadPriority}
    {enforced : Option Nat} (hValid : s.Valid)
    (h : s.spawnFromRamdisk path priority enforced = some t) :
    Changes s t (some s.taskIdCounter) (initialName .main (some path) none []) := by
  let new : NamedThread := ⟨.main, priority, s.taskIdCounter, true, none⟩
  have hName : (new.setIdentifier (initialName .main (some path) none [])).identifier =
      initialName .main (some path) none [] := by
    cases initialName .main (some path) none [] <;> rfl
  rw [← hName]
  refine Changes.addTask ?_ h
  refine .ofNew hValid ?_ rfl rfl
  simp [setupInitialIdentifier, modifyThread, setPath, newThread, new]

theorem Changes.createThread {threadName : Option CString} {atNull : CString}
    (hValid : s.Valid) (h : s.createThread process threadName atNull = some t) :
    Changes s t (some s.taskIdCounter) (some (s.subName process threadName atNull)) := by
  obtain ⟨hProcess, h⟩ := ite_none_right_eq_some.mp h
  -- the main thread is not the new one, so its identifier is the one from before
  have hOther : process ≠ s.taskIdCounter := Int.ne_of_lt (hValid.lt_counter process hProcess)
  let new : NamedThread := ⟨.sub, .normal, process, true, some (s.subName process threadName atNull)⟩
  refine Changes.addTask ?_ h
  refine @Changes.ofNew _ _ hValid new ?_ rfl rfl
  cases threadName <;>
    simp [setupInitialIdentifier, modifyThread, newThread, new, initialName,
      NamedThread.setIdentifier, hOther, subName]

theorem Changes.attachCreatedProcess {task : Tid} (hValid : s.Valid)
    (h : s.attachCreatedProcess task = some t) : ∃ thread, s.threads task = some thread ∧
      Changes s t (some task) (s.attachedName thread) := by
  obtain ⟨hTask, h⟩ := ite_none_right_eq_some.mp h
  obtain ⟨thread, hThread⟩ := isSome_iff_exists.mp hTask
  exact ⟨thread, hThread, (Changes.setIdentifier hValid hThread _).addTask h⟩

/-- The main thread of an empty process, and the threads that `fork` and the creation of a
process with 16 bit code go on to add. -/
theorem Changes.newThread {type : ThreadType} (hValid : s.Valid) :
    Changes s (s.newThread type .normal process) (some s.taskIdCounter) none :=
  @Changes.ofNew _ _ hValid ⟨type, .normal, process, true, none⟩ rfl rfl rfl

end Creation

end Tasking

/-- No scheduled thread has this name from a registration. -/
def Free (identifier : Option CString) : Prop :=
  ∀ name ∈ identifier, ∀ thread ∈ s.tasking.queued, s.registered thread = true →
    s.tasking.hasIdentifier name thread = false

/-- A scheduled thread registers, and where it is a sub thread it has no text yet that would stay
in front; a created thread gets no registered name; and one that has registered is not attached
again. -/
def Event.Plain : Event → Prop
  | .register task _ => task ∈ s.tasking.queued ∧ ∀ thread ∈ s.tasking.threads task,
      thread.type = .sub → thread.identifier.getD [] = []
  | .spawnFromRamdisk path _ _ => Free s (initialName .main (some path) none [])
  | .createThread process threadName atNull =>
    Free s (some (s.tasking.subName process threadName atNull))
  | .attachCreatedProcess task => (task ∈ s.tasking.queued → s.registered task = false) ∧
      ∀ thread ∈ s.tasking.threads task, Free s (s.tasking.attachedName thread)
  | _ => True

instance (s : System) (identifier : Option CString) : Decidable (Free s identifier) :=
  inferInstanceAs (Decidable (∀ name ∈ identifier, _))

instance (s : System) (event : Event) : Decidable (event.Plain s) :=
  match event with
  | .register _ _ => inferInstanceAs (Decidable (_ ∧ ∀ thread ∈ _, _))
  | .spawnFromRamdisk _ _ _ => inferInstanceAs (Decidable (Free s _))
  | .createThread _ _ _ => inferInstanceAs (Decidable (Free s _))
  | .attachCreatedProcess _ => inferInstanceAs (Decidable (_ ∧ ∀ thread ∈ _, Free s _))
  | .createEmptyProcess | .configureProcess _ _ | .fork | .createProcessVm86 | .kill _
  | .removeDead _ | .reschedule _ => inferInstanceAs (Decidable True)

def PlainStep (t : System) : Prop :=
  Step s event t ∧ event.Plain s

/-- The name stands for this thread as long as it lives. -/
structure Holds (thread : Tid) (name : CString) : Prop where
  lt_counter : thread < s.tasking.taskIdCounter
  alive : ∀ named, s.tasking.threads thread = some named → named.alive = true →
    thread ∈ s.tasking.queued ∧ s.registered thread = true ∧ named.identifier = some name

/-- A registered name belongs to one scheduled thread alone. -/
structure Exclusive : Prop where
  valid : s.tasking.Valid
  unique : ∀ name, ∀ a ∈ s.tasking.queued, ∀ b ∈ s.tasking.queued, s.registered a = true →
    s.tasking.hasIdentifier name a = true → s.tasking.hasIdentifier name b = true → b = a

/-- What a plain step does. Nobody has the name that a registration gives; another name that is
given has not been registered, and its thread has no registered one. -/
structure Effect (t : System) (new : Option Tid)
    (identifier : Option CString) (registration : Bool) : Prop where
  changes : s.tasking.Changes t.tasking new identifier
  registered : t.registered = new.elim s.registered (update s.registered · registration)
  free : ∀ name ∈ identifier, ∀ other ∈ s.tasking.queued,
    registration = true ∨ s.registered other = true → s.tasking.hasIdentifier name other = false
  fresh : ∀ thread ∈ new, (thread ∈ s.tasking.queued → s.registered thread = false) ∨
    ∃ name, event = .register thread name

section History

variable {s t : System} {event : Event}
variable {name : CString} {thread : Tid} {new : Option Tid} {identifier : Option CString}
variable {registration : Bool}

theorem Free.none : Free s none :=
  nofun

theorem NamedThread.identifier_setIdentifier {thread : NamedThread}
    (h : thread.type = .sub → thread.identifier.getD [] = []) :
    (thread.setIdentifier (some name)).identifier = some name := by
  simp only [NamedThread.setIdentifier]
  split
  · rename_i old hSub hOld
    have hEmpty := h hSub
    rw [hOld] at hEmpty
    rw [show old = [] from hEmpty]
    rfl
  · rfl

theorem Tasking.Valid.counter_not_mem {tasking : Tasking} (h : tasking.Valid) :
    tasking.taskIdCounter ∉ tasking.queued := by
  intro hMem
  exact Int.lt_irrefl _ (h.lt_counter _ (h.queued_exists _ hMem))

section Register

variable {task : Tid} {newIdentifier : CString}

/-- A registration that succeeds gives the thread a name that nobody had. -/
theorem PlainStep.registers (h : s.tasking.Valid) (hStep : PlainStep s (.register task newIdentifier) t)
    (hTrue : (s.tasking.registerTaskForIdentifier task newIdentifier).1 = true) :
    s.tasking.Changes t.tasking (some task) (some newIdentifier) ∧
      (∀ other ∈ s.tasking.queued, s.tasking.hasIdentifier newIdentifier other = false) ∧
      t.registered = update s.registered task true := by
  obtain ⟨⟨hExecute, hRecord⟩, hScheduled, hSub⟩ := hStep
  rw [record, if_pos hTrue] at hRecord
  cases hLookup : s.tasking.getTaskByIdentifier newIdentifier with
  | some other => simp [Tasking.registerTaskForIdentifier, hLookup] at hTrue
  | none =>
    simp only [execute, Tasking.registerTaskForIdentifier, hLookup] at hExecute
    obtain ⟨thread, hThread⟩ := isSome_iff_exists.mp (h.queued_exists task hScheduled)
    have hChanges := Tasking.Changes.setIdentifier h hThread fun _ => some newIdentifier
    rw [NamedThread.identifier_setIdentifier (hSub thread hThread)] at hChanges
    rw [Tasking.getTaskByIdentifier_eq, find?_eq_none] at hLookup
    refine ⟨some.inj hExecute ▸ hChanges, ?_, hRecord⟩
    exact fun other hOther => Bool.eq_false_iff.mpr (hLookup other hOther)

theorem PlainStep.same (hStep : PlainStep s (.register task newIdentifier) t)
    (hFalse : ¬ (s.tasking.registerTaskForIdentifier task newIdentifier).1 = true) :
    s.tasking = t.tasking ∧ t.registered = s.registered := by
  obtain ⟨⟨hExecute, hRecord⟩, -⟩ := hStep
  rw [record, if_neg hFalse] at hRecord
  refine ⟨?_, hRecord⟩
  cases hLookup : s.tasking.getTaskByIdentifier newIdentifier with
  | some other =>
    simp only [execute, Tasking.registerTaskForIdentifier, hLookup] at hExecute
    exact some.inj hExecute
  | none => simp [Tasking.registerTaskForIdentifier, hLookup] at hFalse

end Register

/-- Every step has such an effect on tasks, identifiers and registrations. -/
theorem PlainStep.effect (h : s.tasking.Valid) (hStep : PlainStep s event t) :
    ∃ new identifier registration, Effect s event t new identifier registration := by
  have hNew (hMem : s.tasking.taskIdCounter ∈ s.tasking.queued) :
      s.registered s.tasking.taskIdCounter = false := absurd hMem h.counter_not_mem
  have names {thread : Tid} {identifier : Option CString}
      (hChanges : s.tasking.Changes t.tasking (some thread) identifier)
      (hFresh : thread ∈ s.tasking.queued → s.registered thread = false)
      (hFree : Free s identifier) (hRecord : t.registered = update s.registered thread false) :
      ∃ new identifier registration, Effect s event t new identifier registration := by
    refine ⟨some thread, identifier, false, hChanges, hRecord, ?_, ?_⟩
    · intro name hName other hOther hCase
      exact hFree name hName other hOther (hCase.resolve_left Bool.false_ne_true)
    · rintro _ ⟨⟩
      exact .inl hFresh
  have keeps (hChanges : s.tasking.Changes t.tasking none none)
      (hRecord : t.registered = s.registered) :
      ∃ new identifier registration, Effect s event t new identifier registration :=
    ⟨none, none, false, hChanges, hRecord, (fun _ h => nomatch h), fun _ h => nomatch h⟩
  have ⟨⟨hExecute, hRecord⟩, hPlain⟩ := hStep
  cases event with
  | register task newIdentifier =>
    by_cases hTrue : (s.tasking.registerTaskForIdentifier task newIdentifier).1 = true
    · obtain ⟨hChanges, hFree, hRecord⟩ := hStep.registers h hTrue
      refine ⟨some task, some newIdentifier, true, hChanges, hRecord, ?_, ?_⟩
      · rintro _ ⟨⟩ other hOther _
        exact hFree other hOther
      · rintro _ ⟨⟩
        exact .inr ⟨_, rfl⟩
    · obtain ⟨hSame, hRecord⟩ := hStep.same hTrue
      exact keeps (hSame ▸ .ofPerm h rfl (.refl _) rfl) hRecord
  | spawnFromRamdisk path priority enforced =>
    exact names (.spawnFromRamdisk h hExecute) hNew hPlain hRecord
  | createEmptyProcess =>
    exact names (some.inj hExecute ▸ .newThread h) hNew .none hRecord
  | createThread process threadName atNull =>
    exact names (.createThread h hExecute) hNew hPlain hRecord
  | attachCreatedProcess task =>
    obtain ⟨thread, hThread, hChanges⟩ := Tasking.Changes.attachCreatedProcess h hExecute
    exact names hChanges hPlain.1 (hPlain.2 thread hThread) hRecord
  | fork =>
    exact names ((Tasking.Changes.newThread h).addTask hExecute) hNew .none hRecord
  | createProcessVm86 =>
    exact names ((Tasking.Changes.newThread h).addTask hExecute) hNew .none hRecord
  | configureProcess process path =>
    exact keeps (some.inj hExecute ▸ .ofPerm h rfl (.refl _) rfl) hRecord
  | kill task =>
    exact keeps (some.inj hExecute ▸ .kill h) hRecord
  | removeDead task =>
    exact keeps (.removeDead h hExecute) hRecord
  | reschedule schedulers =>
    obtain ⟨hPerm, hExecute⟩ := ite_none_right_eq_some.mp hExecute
    exact keeps (some.inj hExecute ▸ .ofPerm h rfl hPerm rfl) hRecord

theorem Effect.registered_eq (hEffect : Effect s event t new identifier registration) (other : Tid) :
    t.registered other = if new = some other then registration else s.registered other := by
  rw [hEffect.registered]
  cases new with
  | none => rfl
  | some thread => simp [update_apply, eq_comm]

theorem Tasking.Changes.eq_some {s t : Tasking} (h : Changes s t new identifier)
    (hNew : new = some thread) (hName : t.hasIdentifier name thread = true) :
    identifier = some name := by
  obtain ⟨named, hNamed, -, hIdentifier⟩ := hasIdentifier_iff.mp hName
  rw [← (h.renamed thread named hNamed hNew).1, hIdentifier]

theorem Tasking.Changes.hasIdentifier_of {s t : Tasking} (h : Changes s t new identifier)
    (hNew : new ≠ some thread) (hName : t.hasIdentifier name thread = true) :
    s.hasIdentifier name thread = true := by
  obtain ⟨named, hNamed, hAlive, hIdentifier⟩ := hasIdentifier_iff.mp hName
  obtain ⟨old, hOld, hSame, hLiving⟩ := h.kept thread named hNamed hNew
  exact hasIdentifier_iff.mpr ⟨old, hOld, hLiving hAlive, hSame ▸ hIdentifier⟩

theorem Exclusive.effect (h : Exclusive s) (hEffect : Effect s event t new identifier registration) :
    Exclusive t := by
  refine ⟨h.valid.changes hEffect.changes, ?_⟩
  intro name a hA b hB hRegistered hNameA hNameB
  have hQueued : ∀ other ∈ t.tasking.queued, new ≠ some other → other ∈ s.tasking.queued :=
    fun other hOther hNew => ((hEffect.changes.queued_or other hOther).resolve_left hNew).1
  rw [hEffect.registered_eq] at hRegistered
  by_cases hNewA : new = some a
  · -- nobody else has the new name
    rw [if_pos hNewA] at hRegistered
    by_contra hNot
    have hNewB : new ≠ some b := fun hNewB => hNot (some.inj (hNewB.symm.trans hNewA))
    have hFree := hEffect.free name (hEffect.changes.eq_some hNewA hNameA) b (hQueued b hB hNewB)
      (.inl hRegistered)
    rw [hEffect.changes.hasIdentifier_of hNewB hNameB] at hFree
    cases hFree
  · rw [if_neg hNewA] at hRegistered
    have hBefore := hEffect.changes.hasIdentifier_of hNewA hNameA
    by_cases hNewB : new = some b
    · have hFree := hEffect.free name (hEffect.changes.eq_some hNewB hNameB) a
        (hQueued a hA hNewA) (.inr hRegistered)
      rw [hBefore] at hFree
      cases hFree
    · exact h.unique name a (hQueued a hA hNewA) b (hQueued b hB hNewB) hRegistered hBefore
        (hEffect.changes.hasIdentifier_of hNewB hNameB)

/-- A thread holds its name until it registers again. -/
theorem Holds.effect (h : Holds s thread name) (hOther : ∀ other, event ≠ .register thread other)
    (hEffect : Effect s event t new identifier registration) : Holds t thread name := by
  refine ⟨Int.lt_of_lt_of_le h.lt_counter hEffect.changes.counter_le, ?_⟩
  intro named hNamed hAlive
  by_cases hNew : new = some thread
  · -- it would have its name from a registration, as it was alive before
    obtain hCounter | ⟨old, hOld, hLiving⟩ :=
      (hEffect.changes.renamed thread named hNamed hNew).2 hAlive
    · exact absurd hCounter (Int.ne_of_lt h.lt_counter)
    · obtain ⟨hQueued, hRegistered, -⟩ := h.alive old hOld hLiving
      obtain hFresh | ⟨other, hRegister⟩ := hEffect.fresh thread hNew
      · rw [hFresh hQueued] at hRegistered
        cases hRegistered
      · exact absurd hRegister (hOther other)
  · obtain ⟨old, hOld, hSame, hLiving⟩ := hEffect.changes.kept thread named hNamed hNew
    obtain ⟨hQueued, hRegistered, hName⟩ := h.alive old hOld (hLiving hAlive)
    refine ⟨(hEffect.changes.queued_of thread hQueued).resolve_left ?_, ?_, hSame.trans hName⟩
    · rw [hNamed]
      exact some_ne_none _
    · rwa [hEffect.registered_eq, if_neg hNew]

theorem Holds.getTaskByIdentifier {named : NamedThread}
    (h : Holds s thread name) (hExclusive : Exclusive s)
    (hNamed : s.tasking.threads thread = some named) (hAlive : named.alive = true) :
    s.tasking.getTaskByIdentifier name = some thread := by
  obtain ⟨hQueued, hRegistered, hName⟩ := h.alive named hNamed hAlive
  have hHas := Tasking.hasIdentifier_iff.mpr ⟨named, hNamed, hAlive, hName⟩
  rw [Tasking.getTaskByIdentifier_eq]
  cases hFind : s.tasking.queued.find? (s.tasking.hasIdentifier name) with
  | none => exact absurd hHas (find?_eq_none.mp hFind thread hQueued)
  | some other =>
    have hOther := hExclusive.unique name thread hQueued other (mem_of_find?_eq_some hFind)
      hRegistered hHas (find?_some hFind)
    rw [hOther]

theorem PlainStep.holds {task : Tid} (h : s.tasking.Valid)
    (hStep : PlainStep s (.register task name) t)
    (hTrue : (s.tasking.registerTaskForIdentifier task name).1 = true) : Holds t task name := by
  obtain ⟨hChanges, -, hRecord⟩ := hStep.registers h hTrue
  refine ⟨(hChanges.new_exists task rfl).2, ?_⟩
  intro named hNamed hAlive
  refine ⟨(hChanges.queued_of task hStep.2.1).resolve_left ?_, ?_,
    (hChanges.renamed task named hNamed rfl).1⟩
  · rw [hNamed]
    exact some_ne_none _
  · rw [hRecord, update_self]

theorem Exclusive.initial (cores : List Bool) : Exclusive ⟨.initial cores, fun _ => false⟩ where
  valid :=
    { lt_counter := fun _ h => nomatch h
      queued_exists := by
        intro thread hThread
        simp only [Tasking.queued, Tasking.initial, mem_flatMap, List.mem_map] at hThread
        obtain ⟨_, ⟨started, -, rfl⟩, hThread⟩ := hThread
        cases started <;> simp at hThread }
  unique := fun _ _ _ _ _ hRegistered => nomatch hRegistered

end History

/-- A registered name stands for its thread until the thread dies or registers again, and no
two scheduled threads have one registered name. -/
theorem registered_names_resolve {cores : List Bool} {events : List Event} {s : System}
    (run : Run PlainStep ⟨.initial cores, fun _ => false⟩ events s) :
    (∀ task name, (s.tasking.registerTaskForIdentifier task name).1 = true →
      ∀ middle, PlainStep s (.register task name) middle →
      ∀ later final, Run PlainStep middle later final → (∀ other, .register task other ∉ later) →
      ∀ named, final.tasking.threads task = some named → named.alive = true →
        final.tasking.getTaskByIdentifier name = some task) ∧
    ∀ name, ∀ a ∈ s.tasking.queued, ∀ b ∈ s.tasking.queued, s.registered a = true →
      s.registered b = true → s.tasking.hasIdentifier name a = true →
      s.tasking.hasIdentifier name b = true → a = b := by
  have hStep : ∀ s event t, Exclusive s → PlainStep s event t → Exclusive t := by
    intro s event t h hPlain
    obtain ⟨_, _, _, hEffect⟩ := hPlain.effect h.valid
    exact h.effect hEffect
  have hExclusive := run.invariant (Exclusive.initial cores) hStep
  constructor
  · intro task name hTrue middle hRegister later final hLater hNot named hNamed hAlive
    let Kept (s : System) : Prop := Exclusive s ∧ Holds s task name
    have hMiddle : Kept middle :=
      ⟨hStep _ _ _ hExclusive hRegister, hRegister.holds hExclusive.valid hTrue⟩
    obtain ⟨hFinal, hHolds⟩ := hLater.invariant_of_mem hMiddle (by
      rintro s event t hMem ⟨h, hHolds⟩ hPlain
      obtain ⟨_, _, _, hEffect⟩ := hPlain.effect h.valid
      refine ⟨h.effect hEffect, hHolds.effect ?_ hEffect⟩
      rintro other rfl
      exact hNot other hMem)
    exact hHolds.getTaskByIdentifier hFinal hNamed hAlive
  · intro name a hA b hB hRegistered _ hNameA hNameB
    exact (hExclusive.unique name a hA b hB hRegistered hNameA hNameB).symm

def System.step : Option System :=
  (execute s.tasking event).map fun t => ⟨t, record s event⟩

def System.plainStep : Option System :=
  if event.Plain s then s.step event else none

variable {s t : System} {event : Event} {events : List Event}

theorem System.step_eq_some (h : s.step event = some t) : Step s event t := by
  obtain ⟨tasking, hExecute, rfl⟩ := map_eq_some_iff.mp h
  exact ⟨hExecute, rfl⟩

theorem System.plainStep_eq_some (h : s.plainStep event = some t) : PlainStep s event t := by
  obtain ⟨hPlain, hStep⟩ := ite_none_right_eq_some.mp h
  exact ⟨step_eq_some hStep, hPlain⟩

theorem System.run_plainStep (h : (events.foldlM System.plainStep s).isSome) :
    Run PlainStep s events (replay System.plainStep s events) :=
  (run_replay h).of_mem fun _ _ _ _ => plainStep_eq_some

theorem System.run_step (h : (events.foldlM System.step s).isSome) :
    Run Step s events (replay System.step s events) :=
  (run_replay h).of_mem fun _ _ _ _ => step_eq_some

/-- One core with a scheduler, and the program `/a`. -/
def oneProgram : System :=
  replay System.plainStep ⟨.initial [true], fun _ => false⟩ [.spawnFromRamdisk [47, 97] .normal none]

/-- The program `/a` registers `x` and then gets a thread `b`. -/
theorem registered_names_resolve_one_program : (replay System.plainStep oneProgram
      [.register 0 [120], .createThread 0 (some [98]) []]).tasking.getTaskByIdentifier [120] =
        some 0 := by
  have hRun : Run PlainStep ⟨.initial [true], fun _ => false⟩
      [.spawnFromRamdisk [47, 97] .normal none] oneProgram :=
    System.run_plainStep (by decide +kernel)
  have hLater : Run PlainStep (replay System.plainStep oneProgram [.register 0 [120]])
      [.createThread 0 (some [98]) []] (replay System.plainStep oneProgram
        [.register 0 [120], .createThread 0 (some [98]) []]) :=
    System.run_plainStep (by decide +kernel)
  exact (registered_names_resolve hRun).1 0 [120] (by decide +kernel) _
    (System.plainStep_eq_some rfl) _ _ hLater (by simp) _ rfl rfl

/-- A thread `b` of the program `/a` registers `cx`, and a thread `bc` registers `x`. Both
registrations succeed, nobody is found under the names, and both threads are `a::bcx`. -/
theorem registered_sub_threads_collide : let cx : CString := [99, 120]
    ∃ s t : System,
      Run Step oneProgram [.createThread 0 (some [98]) [], .createThread 0 (some [98, 99]) []] s ∧
      (s.tasking.registerTaskForIdentifier 1 cx).1 = true ∧
      (s.tasking.registerTaskForIdentifier 1 cx).2.getTaskByIdentifier cx = none ∧
      Run Step s [.register 1 cx, .register 2 [120]] t ∧
      t.registered 1 = true ∧ t.registered 2 = true ∧ 1 ∈ t.tasking.queued ∧ 2 ∈ t.tasking.queued ∧
      t.tasking.hasIdentifier ([97, 58, 58, 98] ++ cx) 1 = true ∧
      t.tasking.hasIdentifier ([97, 58, 58, 98] ++ cx) 2 = true := by
  intro cx
  refine ⟨_, _, System.run_step ?_, ?_, ?_, System.run_step ?_, ?_⟩
  all_goals decide +kernel

end Kernel.Identifiers
