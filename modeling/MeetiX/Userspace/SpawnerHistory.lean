import Mathlib.Data.List.GetD
import MeetiX.Userspace.Spawner

/-! Whom the spawner starts processes for. A process gets the level that its request names,
whoever has sent it, so only the requests keep it from exceeding that of its requester. -/
namespace Spawner

open Base Kernel MessageController List Option

def Step (heap : BlockSource) (s : System) (event : Event) (t : System) : Prop :=
  s.execute heap event = some t

/-- The content is a command that the buffer can hold, and if it asks for a process
it names a level that is no more privileged than the given one. -/
structure AsksWithin (level : SecurityLevel) (content : List UInt8) : Prop where
  fits : headerSize + content.length ≤ requestLenMax
  has_command : 4 ≤ content.length
  within : command content = spawnCommandSpawnRequest →
    4 < content.length ∧ level ≤ requestedLevel content

/-- What a thread sends to the spawner stays within the level of its own process. -/
def Event.Within (s : System) : Event → Prop
  | .sendMessage caller target content _ =>
    target = s.spawner → AsksWithin (s.tasks.levelOf caller) content
  | _ => True

/-- A step that sends the spawner no request beyond the level of the sender. -/
def WithinStep (heap : BlockSource) (s : System) (event : Event) (t : System) : Prop :=
  Step heap s event t ∧ event.Within s

namespace System

/-- The process is no more privileged than the one of the thread that asked for it. -/
def StartedWithin (s : System) (started : Started) : Prop :=
  ∀ requester, started.requester = some requester →
    s.tasks.levelOf requester ≤ s.tasks.securityLevel started.process

/-- A message in the mailbox of the spawner comes from another thread and stays
within its level. -/
structure Acceptable (s : System) (message : Message) : Prop where
  sender_lt : message.sender < s.tasks.taskIdCounter
  sender_ne : message.sender ≠ s.spawner
  length_eq : message.length = message.content.length
  within : AsksWithin (s.tasks.levelOf message.sender) message.content

structure Accounted (s : System) (started : Started) : Prop where
  process_lt : started.process < s.tasks.taskIdCounter
  requester_lt : ∀ requester, started.requester = some requester →
    requester < s.tasks.taskIdCounter
  within : s.StartedWithin started

structure Valid (s : System) : Prop where
  tasks : s.tasks.Valid
  spawner_lt : s.spawner < s.tasks.taskIdCounter
  queues : ∃ queued, MessageController.Valid s.messages queued []
  mailbox : ∀ message ∈ contents s.messages s.spawner, s.Acceptable message
  responding : ∀ requester tx response, s.phase = .responding requester tx response →
    requester ≠ s.spawner
  started : ∀ started ∈ s.started, s.Accounted started

section Steps

variable {heap : BlockSource} {s t : System}
variable {caller : Tid} {calls : Calls}

theorem Acceptable.grows {message : Message} (h : s.Acceptable message) (hTasks : s.tasks.Valid)
    (hGrows : Tasks.Grows s.tasks t.tasks) (hSpawner : t.spawner = s.spawner) :
    t.Acceptable message where
  sender_lt := h.sender_lt.trans_le hGrows.counter_le
  sender_ne := hSpawner ▸ h.sender_ne
  length_eq := h.length_eq
  within := by
    rw [hGrows.levelOf_eq hTasks h.sender_lt]
    exact h.within

theorem Accounted.grows {started : Started} (h : s.Accounted started) (hTasks : s.tasks.Valid)
    (hGrows : Tasks.Grows s.tasks t.tasks) : t.Accounted started where
  process_lt := h.process_lt.trans_le hGrows.counter_le
  requester_lt requester hRequester := (h.requester_lt requester hRequester).trans_le hGrows.counter_le
  within requester hRequester := by
    rw [hGrows.levelOf_eq hTasks (h.requester_lt requester hRequester),
      hGrows.securityLevel_eq _ h.process_lt]
    exact h.within requester hRequester

section

variable (h : s.Valid)

include h

/-- A state stays valid when threads and processes are added, and what is put into the mailbox
of the spawner or into the history is right. -/
theorem Valid.next (hGrows : Tasks.Grows s.tasks t.tasks)
    (hQueues : ∃ queued, MessageController.Valid t.messages queued [])
    (hSpawner : t.spawner = s.spawner)
    (hMailbox : ∀ message ∈ contents t.messages s.spawner,
      message ∈ contents s.messages s.spawner ∨ s.Acceptable message)
    (hPhase : ∀ requester tx response, t.phase = .responding requester tx response →
      requester ≠ s.spawner)
    (hStarted : ∀ started ∈ t.started, started ∈ s.started ∨ t.Accounted started) : t.Valid where
  tasks := hGrows.valid
  spawner_lt := by
    rw [hSpawner]
    exact h.spawner_lt.trans_le hGrows.counter_le
  queues := hQueues
  mailbox message hMem := by
    rw [hSpawner] at hMem
    have hAcceptable := (hMailbox message hMem).elim (h.mailbox message) id
    exact hAcceptable.grows h.tasks hGrows hSpawner
  responding := by
    rw [hSpawner]
    exact hPhase
  started started hMem :=
    (hStarted started hMem).elim (fun hOld => (h.started started hOld).grows h.tasks hGrows) id

theorem Valid.withTasks {tasks : Tasks} (hGrows : Tasks.Grows s.tasks tasks) :
    ({ s with tasks := tasks } : System).Valid :=
  h.next hGrows h.queues rfl (fun _ => .inl) h.responding fun _ => .inl

theorem Valid.message {op : Mailboxes.Op} {result : Mailboxes.Result}
    (hMessage : s.message heap op = some (result, t))
    (hSend : ∀ source content tx, op = .send s.spawner source content tx →
      source < s.tasks.taskIdCounter ∧ source ≠ s.spawner ∧
        AsksWithin (s.tasks.levelOf source) content) : t.Valid := by
  obtain ⟨queued, hQueues⟩ := h.queues
  obtain ⟨messages, queued', hExecute, hValid, hContents, -⟩ := execute_spec heap hQueues op
  simp only [System.message, hExecute] at hMessage
  obtain ⟨-, rfl⟩ := hMessage
  refine h.next (Tasks.Grows.refl h.tasks) ⟨queued', hValid⟩ rfl (fun message hMem => ?_)
    h.responding fun _ => .inl
  rw [hContents] at hMem
  rcases Mailboxes.execute_mem hMem with hOld | ⟨source, content, tx, hOp, rfl⟩
  · exact .inl hOld
  · obtain ⟨hKnown, hNe, hWithin⟩ := hSend source content tx hOp
    exact .inr ⟨hKnown, hNe, rfl, hWithin⟩

theorem Valid.deleteTask {thread : Tid} (hDelete : s.deleteTask thread = some t) :
    t.Valid ∧ t.spawner = s.spawner := by
  obtain ⟨queued, hQueues⟩ := h.queues
  obtain ⟨messages, queued', hClear, hValid, hContents, -⟩ := clear_spec hQueues thread
  simp only [System.deleteTask, hClear, map_some, some.injEq] at hDelete
  subst hDelete
  refine ⟨h.next (Tasks.deleteTask_grows h.tasks thread) ⟨queued', hValid⟩ rfl
    (fun message hMem => ?_) h.responding fun _ => .inl, rfl⟩
  rw [hContents] at hMem
  by_cases hThread : s.spawner = thread
  · simp [Mailboxes.clear, hThread] at hMem
  · simpa [Mailboxes.clear, hThread] using Or.inl hMem

theorem Valid.cancelProcessCreation {object : Tid}
    (hCancel : s.cancelProcessCreation caller object = some t) :
    t.Valid ∧ t.spawner = s.spawner := by
  unfold System.cancelProcessCreation at hCancel
  split at hCancel
  · split at hCancel
    · cases hCancel
    · exact h.deleteTask hCancel
  · cases hCancel
    exact ⟨h, rfl⟩

/-- A process that `spawn` has started is new and has the level it was asked for. -/
theorem Valid.spawn {path : CString} {secLvl : SecurityLevel}
    {requesterPid : Pid} {stdio : StandardIO} {spawned : Spawned}
    (hSpawn : s.spawn calls path secLvl requesterPid stdio = some (spawned, t)) :
    t.Valid ∧ t.spawner = s.spawner ∧ ∀ pid, spawned.pid = some pid →
      Tasks.Grows s.tasks t.tasks ∧ pid < t.tasks.taskIdCounter ∧
        t.tasks.securityLevel pid = secLvl := by
  unfold System.spawn at hSpawn
  split at hSpawn
  · cases hSpawn
    exact ⟨h, rfl, nofun⟩
  · split at hSpawn
    · cases hSpawn
      exact ⟨h, rfl, nofun⟩
    · dsimp only at hSpawn
      split at hSpawn
      · cases hSpawn
      · rename_i targetProc hCreated
        obtain ⟨rfl, hLevel, hTasks⟩ := Tasks.createEmptyProcess_spec hCreated
        have hGrows := Tasks.newProcess_grows h.tasks secLvl
        have hKernel : (s.tasks.newProcess secLvl).levelOf s.spawner = securityLevelKernel :=
          (hGrows.levelOf_eq h.tasks h.spawner_lt).trans hLevel
        rw [hTasks] at hSpawn
        split at hSpawn
        · obtain ⟨tasks, hAttach, hEq⟩ := map_eq_some_iff.mp hSpawn
          cases hEq
          have hAttached := Tasks.attachCreatedProcess_grows hGrows.valid hAttach
          have hNew : s.tasks.taskIdCounter < (s.tasks.newProcess secLvl).taskIdCounter :=
            Int.lt_succ _
          refine ⟨h.withTasks (hGrows.trans hAttached), rfl, fun pid hPid => ?_⟩
          simp only [Tasks.getCreatedProcessId, hKernel, some.injEq] at hPid
          subst hPid
          refine ⟨hGrows.trans hAttached, hNew.trans_le hAttached.counter_le, ?_⟩
          exact (hAttached.securityLevel_eq _ hNew).trans (Function.update_self ..)
        · obtain ⟨cancelled, hCancel, hEq⟩ := map_eq_some_iff.mp hSpawn
          cases hEq
          obtain ⟨hValid, hSame⟩ := (h.withTasks hGrows).cancelProcessCreation hCancel
          exact ⟨hValid, hSame, nofun⟩

/-- The history stays in order when a process is noted that is within the level of
its requester. -/
theorem Valid.record {requester : Option Tid} {spawned : Spawned} {phase : Phase}
    (hPid : ∀ pid, spawned.pid = some pid → s.Accounted ⟨requester, pid⟩)
    (hPhase : ∀ thread tx response, phase = .responding thread tx response →
      thread ≠ s.spawner) :
    ({ s.record requester spawned with phase := phase } : System).Valid := by
  unfold System.record
  split
  · rename_i pid hSome
    refine h.next (Tasks.Grows.refl h.tasks) h.queues rfl (fun _ => .inl) hPhase
      (forall_mem_cons.mpr ⟨.inr ?_, fun _ => .inl⟩)
    exact (hPid pid hSome).grows h.tasks (Tasks.Grows.refl h.tasks)
  · exact h.next (Tasks.Grows.refl h.tasks) h.queues rfl (fun _ => .inl) hPhase fun _ => .inl

theorem Valid.init (hInit : s.init calls = some t) : t.Valid := by
  obtain ⟨⟨spawned, u⟩, hSpawn, rfl⟩ := map_eq_some_iff.mp hInit
  obtain ⟨hValid, -, hPid⟩ := h.spawn hSpawn
  exact hValid.record (fun pid hSome => ⟨(hPid pid hSome).2.1, nofun, nofun⟩) nofun

end

theorem readWord_append (content rest : List UInt8) (h : 4 ≤ content.length) :
    readWord (content ++ rest) 0 = readWord content 0 := by
  unfold readWord
  rw [getD_append _ _ _ _ (by omega), getD_append _ _ _ _ (by omega),
    getD_append _ _ _ _ (by omega), getD_append _ _ _ _ (by omega)]

/-- The buffer holds a message that stays within the level of its sender. -/
theorem Valid.handle (h : s.Valid) {message : Message} (hMessage : s.Acceptable message)
    {before : RequestBuffer} (hBuffer : s.requestBuffer = before.receive message)
    (hHandle : s.handle calls = some t) : t.Valid := by
  have hContent := hMessage.within
  unfold System.handle at hHandle
  rw [hBuffer] at hHandle
  split at hHandle
  · rename_i hCommand
    have hRequest : command message.content = spawnCommandSpawnRequest := by
      unfold command at hCommand ⊢
      rwa [RequestBuffer.receive, readWord_append _ _ hContent.has_command] at hCommand
    obtain ⟨hLength, hLevel⟩ := hContent.within hRequest
    obtain ⟨⟨spawned, u⟩, hSpawn, rfl⟩ := map_eq_some_iff.mp hHandle
    obtain ⟨hValid, hSpawner, hPid⟩ := h.spawn hSpawn
    refine hValid.record (fun pid hSome => ?_) ?_
    · obtain ⟨hGrows, hLt, hSame⟩ := hPid pid hSome
      refine ⟨hLt, fun thread hThread => ?_, fun thread hThread => ?_⟩
      · cases hThread
        exact hMessage.sender_lt.trans_le hGrows.counter_le
      · cases hThread
        rw [hSame]
        unfold requestedLevel RequestBuffer.receive
        rw [getD_append _ _ _ _ hLength, hGrows.levelOf_eq h.tasks hMessage.sender_lt]
        exact hLevel
    · intro thread tx response hResponding
      cases hResponding
      exact hSpawner ▸ hMessage.sender_ne
  · cases hHandle
    exact h

/-- A round takes a message out of the mailbox. Since every message there fits into
the buffer, the old contents are not handled again. -/
theorem Valid.receiveRequests (h : s.Valid)
    (hRound : s.receiveRequests heap calls = some t) : t.Valid := by
  obtain ⟨queued, hQueues⟩ := h.queues
  obtain ⟨messages, queued', hExecute, hValid, hContents, -⟩ :=
    execute_spec heap hQueues (.receive s.spawner requestLenMax transactionNone)
  have hMessage : ∃ result, s.message heap (.receive s.spawner requestLenMax transactionNone) =
      some (result, { s with messages := messages }) :=
    ⟨_, by rw [System.message, hExecute, map_some]⟩
  obtain ⟨_, hMessage⟩ := hMessage
  have hTaken := h.message hMessage fun _ _ _ hOp => nomatch hOp
  unfold System.receiveRequests at hRound
  rw [hExecute] at hRound
  cases hFind : (contents s.messages s.spawner).find? (Mailboxes.wanted transactionNone) with
  | none => simp [Mailboxes.execute, Mailboxes.receive, hFind] at hRound
  | some message =>
    have hAcceptable := h.mailbox message (mem_of_find?_eq_some hFind)
    have hFits : ¬ headerSize + message.length > requestLenMax := by
      rw [hAcceptable.length_eq]
      exact Nat.not_lt.mpr hAcceptable.within.fits
    simp only [Mailboxes.execute, Mailboxes.receive, hFind, hFits] at hRound
    have hReceived : System.Valid { s with
        messages := messages, requestBuffer := s.requestBuffer.receive message } :=
      hTaken.next (Tasks.Grows.refl h.tasks) hTaken.queues rfl (fun _ => .inl) h.responding
        fun _ => .inl
    exact hReceived.handle (hAcceptable.grows h.tasks (Tasks.Grows.refl h.tasks) rfl) rfl hRound

theorem Valid.respond (h : s.Valid) {blocking : Bool} (hRespond : s.respond heap blocking = some t) :
    t.Valid := by
  unfold System.respond at hRespond
  split at hRespond
  · rename_i requester tx response hPhase
    obtain ⟨⟨result, u⟩, hMessage, rfl⟩ := map_eq_some_iff.mp hRespond
    have hRequester := h.responding requester tx response hPhase
    have hSent := h.message hMessage fun source content tx hOp => by
      cases hOp
      exact absurd rfl hRequester
    split
    · exact hSent
    · exact hSent.next (Tasks.Grows.refl hSent.tasks) hSent.queues rfl (fun _ => .inl) nofun
        fun _ => .inl
  · cases hRespond

theorem Valid.caller_lt (h : s.Valid) (hRuns : s.Runs caller) : caller < s.tasks.taskIdCounter := by
  refine h.tasks.thread_lt caller ?_
  rw [hRuns.2]
  exact nofun

/-- What every event keeps as long as the requests stay within the levels of their
senders. -/
theorem Valid.step (h : s.Valid) {event : Event} (hStep : WithinStep heap s event t) : t.Valid := by
  obtain ⟨hExecute, hWithin⟩ := hStep
  unfold Step at hExecute
  cases event with
  | createThread caller hasStacks =>
    obtain ⟨hRuns, hEq⟩ := ite_none_right_eq_some.mp hExecute
    cases hEq
    exact h.withTasks (Tasks.createThread_grows h.tasks (h.caller_lt hRuns) _)
  | fork caller =>
    obtain ⟨-, hEq⟩ := ite_none_right_eq_some.mp hExecute
    cases hEq
    exact h.withTasks (Tasks.fork_grows h.tasks _)
  | createEmptyProcess caller level hasStacks =>
    obtain ⟨-, hEq⟩ := ite_none_right_eq_some.mp hExecute
    cases hEq
    exact h.withTasks (Tasks.createEmptyProcess_grows h.tasks _ _ _)
  | attachCreatedProcess caller object =>
    obtain ⟨-, hMap⟩ := ite_none_right_eq_some.mp hExecute
    obtain ⟨tasks, hAttach, rfl⟩ := map_eq_some_iff.mp hMap
    exact h.withTasks (Tasks.attachCreatedProcess_grows h.tasks hAttach)
  | cancelProcessCreation caller object =>
    obtain ⟨-, hCancel⟩ := ite_none_right_eq_some.mp hExecute
    exact (h.cancelProcessCreation hCancel).1
  | ramdiskSpawn caller level valid hasStacks =>
    obtain ⟨-, hEq⟩ := ite_none_right_eq_some.mp hExecute
    cases hEq
    exact h.withTasks (Tasks.ramdiskSpawn_grows h.tasks _ _ _ _)
  | sendMessage caller target content tx =>
    obtain ⟨hRuns, hMap⟩ := ite_none_right_eq_some.mp hExecute
    obtain ⟨⟨result, u⟩, hMessage, rfl⟩ := map_eq_some_iff.mp hMap
    refine h.message hMessage fun source content tx hOp => ?_
    cases hOp
    exact ⟨h.caller_lt hRuns, hRuns.1, hWithin rfl⟩
  | receiveMessage caller max tx =>
    obtain ⟨-, hMap⟩ := ite_none_right_eq_some.mp hExecute
    obtain ⟨⟨result, u⟩, hMessage, rfl⟩ := map_eq_some_iff.mp hMap
    exact h.message hMessage fun _ _ _ hOp => nomatch hOp
  | deleteTask thread =>
    obtain ⟨-, hDelete⟩ := ite_none_right_eq_some.mp hExecute
    exact (h.deleteTask hDelete).1
  | init calls =>
    simp only [System.execute] at hExecute
    split at hExecute
    · exact h.init hExecute
    · cases hExecute
  | receiveRequests calls =>
    simp only [System.execute] at hExecute
    split at hExecute
    · exact h.receiveRequests hExecute
    · cases hExecute
  | respond blocking =>
    obtain ⟨-, hRespond⟩ := ite_none_right_eq_some.mp hExecute
    exact h.respond hRespond

end Steps

theorem boot_valid (requestBuffer : RequestBuffer) : (boot requestBuffer).Valid where
  tasks := by
    refine ⟨fun thread hState => ?_, fun _ hThread => hThread⟩
    by_cases hThread : thread = 0 ∨ thread = 1
    · show thread < 2
      lia
    · simp [boot, hThread] at hState
  spawner_lt := show (1 : Int) < 2 by decide
  queues := ⟨_, valid_initial⟩
  mailbox message hMem := by
    exact absurd hMem not_mem_nil
  responding := nofun
  started := nofun

end System

/-- As long as no thread sends the spawner a message that asks for a level beyond its
own, or one that the server cannot read completely, no started process is more
privileged than its requester. -/
theorem started_within_requester {heap : BlockSource} {requestBuffer : RequestBuffer}
    {events : List Event} {s : System}
    (run : Run (WithinStep heap) (System.boot requestBuffer) events s) :
    ∀ started ∈ s.started, s.StartedWithin started := by
  have hValid : s.Valid :=
    run.invariant (System.boot_valid requestBuffer) fun _ _ _ h hStep => h.step hStep
  exact fun started hMem => (hValid.started started hMem).within

def granted : Calls where
  openF _ := some 3
  pathVariable := []
  checkForElfBinaryAndReset _ := .successful
  hasStacks := true
  setupStdio _ _ stdio := stdio
  load := .successful
  behindBuffer := []
  unsetPid := 0
  unsetStdio := ⟨0, 0, 0⟩

/-- A request for the shell, without arguments, in the root folder. -/
def shellRequest (level : SecurityLevel) : List UInt8 :=
  wordBytes 1 ++ [level] ++ wordBytes 8 ++ wordBytes 1 ++ wordBytes 2 ++ wordBytes 0 ++ wordBytes 1 ++
    wordBytes 2 ++ System.shellPath ++ [0, 0, 0x2F, 0]

/-- The shell starts an application, thread 3, which then asks the spawner for a process. -/
def session (level : SecurityLevel) : List Event :=
  [.init granted, .ramdiskSpawn 2 securityLevelApplication true true,
    .sendMessage 3 1 (shellRequest level) 7, .receiveRequests granted]

def emptyBuffer : RequestBuffer := ⟨0, 0, replicate (requestLenMax - headerSize) 0⟩

def reached (events : List Event) : System :=
  replay (System.execute growingHeap) (System.boot emptyBuffer) events

/-- An application asks for another one and gets it. -/
theorem started_within_requester_application :
    ∃ s, Run (WithinStep growingHeap) (System.boot emptyBuffer)
        (session securityLevelApplication) s ∧
      s.started.map Started.requester = [some 3, none] ∧
      s.tasks.levelOf 3 = securityLevelApplication ∧
      ∀ started ∈ s.started, s.StartedWithin started := by
  have hStart : Run (WithinStep growingHeap) (System.boot emptyBuffer)
      ((session securityLevelApplication).take 2)
      (reached ((session securityLevelApplication).take 2)) := by
    refine (run_replay (by decide +kernel)).of_mem fun s label t hMem hStep => ⟨hStep, ?_⟩
    rcases mem_pair.mp hMem with rfl | rfl <;> exact trivial
  have hSend : WithinStep growingHeap (reached ((session securityLevelApplication).take 2))
      (.sendMessage 3 1 (shellRequest securityLevelApplication) 7)
      (reached ((session securityLevelApplication).take 3)) :=
    ⟨execute_replay [] (by decide +kernel), fun _ => ⟨by decide, by decide, fun _ => by decide +kernel⟩⟩
  have hReceive : WithinStep growingHeap (reached ((session securityLevelApplication).take 3))
      (.receiveRequests granted) (reached (session securityLevelApplication)) :=
    ⟨execute_replay [] (by decide +kernel), trivial⟩
  have hRun := (hStart.snoc hSend).snoc hReceive
  exact ⟨_, hRun, by decide +kernel, by decide +kernel, started_within_requester hRun⟩

/-- The spawner runs at kernel level and starts what it is asked for: an application
gets a process at kernel level. -/
theorem application_starts_kernel_process :
    ∃ s, Run (Step growingHeap) (System.boot emptyBuffer) (session securityLevelKernel) s ∧
      ∃ started ∈ s.started, started.requester = some 3 ∧
        s.tasks.levelOf 3 = securityLevelApplication ∧
        s.tasks.securityLevel started.process = securityLevelKernel := by
  have hRun : Run (Step growingHeap) (System.boot emptyBuffer) (session securityLevelKernel) _ :=
    run_replay (by decide +kernel)
  exact ⟨_, hRun, ⟨some 3, 4⟩, by decide +kernel, rfl, by decide +kernel, by decide +kernel⟩

end Spawner
