import MeetiX.Kernel.FileSystem.FsDescriptors
import MeetiX.Kernel.FileSystem.FsNode
import MeetiX.Kernel.Messaging.MessageHistory
import MeetiX.Kernel.Tasking.Processes

/-! The spawner server, which starts processes for others, with its kernel calls. The bytes of a
request are read from the buffer it was received into. What the file system, the loader and
indeterminate memory answer is given from outside. `ReceiveMessage` waits for a message of any
transaction. -/
namespace Spawner

open Kernel MessageController

def spawnCommandSpawnRequest : Int := 1

inductive SpawnStatus
  | successful
  | ioError
  | memoryError
  | formatError
  | unknown
  deriving DecidableEq

def SpawnStatus.code : SpawnStatus → Nat
  | .successful => 0
  | .ioError => 1
  | .memoryError => 2
  | .formatError => 3
  | .unknown => 4

inductive LoaderStatus
  | successful
  | formatError
  | ioError
  | memoryError
  | unknown
  deriving DecidableEq

inductive BinaryFormat
  | unknown
  | elf32
  deriving DecidableEq

structure StandardIO where
  stdin : Fd
  stdout : Fd
  stderr : Fd

/-- The answers to the calls that `spawn` and `processSpawnRequest` make. -/
structure Calls where
  /-- `OpenF` with `O_RDONLY`, where no descriptor stands for -1. -/
  openF : CString → Option Fd
  /-- `Environment::getEnvVar("PATH")`. -/
  pathVariable : CString
  checkForElfBinaryAndReset : Fd → LoaderStatus
  /-- Whether the kernel can create the stacks of the new process. -/
  hasStacks : Bool
  /-- What `setupStdio` leaves in its out parameters for a created process, a
  requester and the descriptors in the request. -/
  setupStdio : Pid → Pid → StandardIO → StandardIO
  load : LoaderStatus
  /-- The bytes on the stack behind the request buffer. -/
  behindBuffer : List UInt8
  /-- What is read from a process identifier that nothing was written to. -/
  unsetPid : Pid
  unsetStdio : StandardIO

/-- `sizeof(SpawnCommandSpawnRequest)`: the command at 0, the security level at 4, three
sizes from 5 on and three descriptors from 17 on. -/
def spawnRequestSize : Nat := 29

def requestLenMax : Nat := headerSize + spawnRequestSize + 1024

variable (bytes : List UInt8)

/-- The 32-bit word at an offset, lowest byte first. -/
def readWord (offset : Nat) : Nat :=
  (bytes.getD offset 0).toNat + (bytes.getD (offset + 1) 0).toNat * 0x100 +
    (bytes.getD (offset + 2) 0).toNat * 0x10000 + (bytes.getD (offset + 3) 0).toNat * 0x1000000

def command : Int := toInt32 (readWord bytes 0)

/-- The `securityLevel` of a `SpawnCommandSpawnRequest`. -/
def requestedLevel : SecurityLevel := bytes.getD 4 0

/-- The path follows the request. Without a null byte in the buffer it goes on
behind it. -/
def requestedPath (bytes behindBuffer : List UInt8) : CString :=
  (bytes.drop spawnRequestSize ++ behindBuffer).takeWhile (· != 0)

def requestedStdio : StandardIO :=
  ⟨toInt32 (readWord bytes 17), toInt32 (readWord bytes 21), toInt32 (readWord bytes 25)⟩

/-- The fields of the message header that the spawner reads, and the bytes behind
the header. -/
structure RequestBuffer where
  sender : Tid
  transaction : Nat
  bytes : List UInt8

/-- A message is copied over the front of the buffer; the rest stays. -/
def RequestBuffer.receive (buffer : RequestBuffer) (message : Message) : RequestBuffer :=
  ⟨message.sender, message.transaction,
    message.content ++ buffer.bytes.drop message.content.length⟩

inductive Phase
  /-- It has still to call `init`. -/
  | starting
  | receiving
  /-- It has a response to send. -/
  | responding (requester : Tid) (tx : Nat) (response : List UInt8)

/-- A process that the server has started, for a thread or on its own behalf. -/
structure Started where
  requester : Option Tid
  process : Pid
  deriving DecidableEq

structure System where
  messages : State
  tasks : Tasks
  /-- The thread of the server. -/
  spawner : Tid
  phase : Phase
  requestBuffer : RequestBuffer
  /-- The processes started so far, the last one first. -/
  started : List Started

def npos : Nat := wordSize - 1

def find (text : CString) (byte : UInt8) : Nat := (text.findIdx? (· == byte)).getD npos

def findLastOf (text : CString) (byte : UInt8) : Nat :=
  match text.reverse.findIdx? (· == byte) with
  | some fromEnd => text.length - 1 - fromEnd
  | none => npos

def substr (text : CString) (position length : Nat) : CString := (text.drop position).take length

/-- A colon. -/
def separator : UInt8 := 0x3A

/-- The text `/bin/`. -/
def binFolder : CString := [0x2F, 0x62, 0x69, 0x6E, 0x2F]

/-- `findFile`: the path as it is, then behind the entries of the path variable. -/
def findFile (calls : Calls) (path : CString) : Option Fd :=
  let vars := calls.pathVariable
  let cmd := substr vars 0 (find vars separator) ++ path
  let app := substr vars (wrap32 (find vars separator + 1)) (find vars separator) ++ path ++
    binFolder ++ path
  let svr := substr vars (wrap32 (findLastOf vars separator + 1)) npos ++ path
  [path, cmd, app, svr].findSome? calls.openF

def detectFormat (calls : Calls) (file : Fd) : BinaryFormat :=
  if calls.checkForElfBinaryAndReset file = .successful then .elf32 else .unknown

/-- The status that `spawn` returns when the loader has failed. -/
def failureStatus : LoaderStatus → SpawnStatus
  | .ioError => .ioError
  | .formatError => .formatError
  | .memoryError => .memoryError
  | _ => .unknown

/-- What `spawn` returns, and its out parameters as far as it has set them. -/
structure Spawned where
  status : SpawnStatus
  pid : Option Pid
  stdio : Option StandardIO

namespace System

def deleteTask (s : System) (thread : Tid) : Option System :=
  (clear s.messages thread).map fun messages =>
    { s with messages := messages, tasks := s.tasks.deleteTask thread }

variable (s : System)

def cancelProcessCreation (caller object : Tid) : Option System :=
  if s.tasks.levelOf caller = securityLevelKernel then
    if s.tasks.state object = .absent then none else s.deleteTask object
  else some s

variable (calls : Calls)

/-- `spawn`. A process that could not be created is used through the null pointer,
which has no result. -/
def spawn (path : CString) (secLvl : SecurityLevel)
    (requesterPid : Pid) (stdio : StandardIO) : Option (Spawned × System) :=
  match findFile calls path with
  | none => some (⟨.ioError, none, none⟩, s)
  | some file =>
    match detectFormat calls file with
    | .unknown => some (⟨.formatError, none, none⟩, s)
    | .elf32 =>
      let created := s.tasks.createEmptyProcess s.spawner secLvl calls.hasStacks
      let s := { s with tasks := created.2 }
      match created.1 with
      | none => none
      | some targetProc =>
        let targetPid := s.tasks.getCreatedProcessId s.spawner targetProc calls.unsetPid
        let out := some (calls.setupStdio targetPid requesterPid stdio)
        match calls.load with
        | .successful =>
          (s.tasks.attachCreatedProcess s.spawner targetProc).map fun tasks =>
            (⟨.successful, some targetPid, out⟩, { s with tasks := tasks })
        | status =>
          (s.cancelProcessCreation s.spawner targetProc).map fun s =>
            (⟨failureStatus status, none, out⟩, s)

/-- A started process is noted with the thread that asked for it. -/
def record (requester : Option Tid) (spawned : Spawned) : System :=
  match spawned.pid with
  | some pid => { s with started := ⟨requester, pid⟩ :: s.started }
  | none => s

/-- The text `/cmd/mx`. -/
def shellPath : CString := [0x2F, 0x63, 0x6D, 0x64, 0x2F, 0x6D, 0x78]

/-- `init` starts the shell, for no requester. -/
def init : Option System :=
  (s.spawn calls shellPath securityLevelKernel 0 ⟨0, 0, 0⟩).map fun answer =>
    { answer.2.record none answer.1 with phase := .receiving }

def intBytes (n : Int) : List UInt8 := wordBytes (n % wordSize).toNat

/-- The bytes of a `SpawnCommandSpawnResponse`. -/
def response (spawned : Spawned) : List UInt8 :=
  let stdio := spawned.stdio.getD calls.unsetStdio
  wordBytes spawned.status.code ++ intBytes (spawned.pid.getD calls.unsetPid) ++
    intBytes stdio.stdin ++ intBytes stdio.stdout ++ intBytes stdio.stderr

/-- `processSpawnRequest`, up to the sending of the response. -/
def processSpawnRequest (request : List UInt8) (requester : Tid) (tx : Nat) : Option System :=
  let secLvl := requestedLevel request
  let path := requestedPath request calls.behindBuffer
  let requesterPid := s.tasks.getPidForTid requester calls.unsetPid
  (s.spawn calls path secLvl requesterPid (requestedStdio request)).map fun answer =>
    { answer.2.record (some requester) answer.1 with
      phase := .responding requester tx (response calls answer.1) }

/-- What one round of `receiveRequests` does with the bytes in the buffer. The
signals of `processHealtMachine` may have any effect on threads later. -/
def handle : Option System :=
  if command s.requestBuffer.bytes = spawnCommandSpawnRequest then
    s.processSpawnRequest calls s.requestBuffer.bytes s.requestBuffer.sender
      s.requestBuffer.transaction
  else some s

/-- One round of `receiveRequests`. While there is no message it waits. A message
that does not fit is only reported, and the old contents of the buffer are handled
again. -/
def receiveRequests (heap : BlockSource) (s : System) (calls : Calls) : Option System :=
  match MessageController.execute heap s.messages
      (.receive s.spawner requestLenMax transactionNone) with
  | some (.received .successful (some message), messages) =>
    handle { s with messages := messages, requestBuffer := s.requestBuffer.receive message } calls
  | some (.received .exceedsBufferSize _, messages) => handle { s with messages := messages } calls
  | _ => none

end System

/-- What can happen next: calls of other threads, the deletion of a thread, and the
steps of the server. -/
inductive Event
  | createThread (caller : Tid) (hasStacks : Bool)
  | fork (caller : Tid)
  | createEmptyProcess (caller : Tid) (level : SecurityLevel) (hasStacks : Bool)
  | attachCreatedProcess (caller object : Tid)
  | cancelProcessCreation (caller object : Tid)
  | ramdiskSpawn (caller : Tid) (level : SecurityLevel) (valid hasStacks : Bool)
  | sendMessage (caller target : Tid) (content : List UInt8) (tx : Nat)
  | receiveMessage (caller : Tid) (max tx : Nat)
  | deleteTask (thread : Tid)
  | init (calls : Calls)
  | receiveRequests (calls : Calls)
  | respond (blocking : Bool)

namespace System

def message (heap : BlockSource) (s : System) (op : Mailboxes.Op) :
    Option (Mailboxes.Result × System) :=
  (MessageController.execute heap s.messages op).map fun answer =>
    (answer.1, { s with messages := answer.2 })

/-- The thread runs and is not the one of the server, which makes its own calls. -/
def Runs (s : System) (caller : Tid) : Prop :=
  caller ≠ s.spawner ∧ s.tasks.state caller = .scheduled

instance (s : System) (caller : Tid) : Decidable (s.Runs caller) :=
  inferInstanceAs (Decidable (_ ∧ _))

/-- The response is sent. In blocking mode the server waits while the queue of the
requester is full. -/
def respond (heap : BlockSource) (s : System) (blocking : Bool) : Option System :=
  match s.phase with
  | .responding requester tx response =>
    (s.message heap (.send requester s.spawner response tx)).map fun answer =>
      if answer.1 = .sent .queueFull ∧ blocking then answer.2
      else { answer.2 with phase := .receiving }
  | _ => none

def execute (heap : BlockSource) (s : System) : Event → Option System
  | .createThread caller hasStacks =>
    if s.Runs caller then some { s with tasks := s.tasks.createThread caller hasStacks } else none
  | .fork caller =>
    if s.Runs caller then some { s with tasks := s.tasks.fork caller } else none
  | .createEmptyProcess caller level hasStacks =>
    if s.Runs caller then
      some { s with tasks := (s.tasks.createEmptyProcess caller level hasStacks).2 }
    else none
  | .attachCreatedProcess caller object =>
    if s.Runs caller then
      (s.tasks.attachCreatedProcess caller object).map fun tasks => { s with tasks := tasks }
    else none
  | .cancelProcessCreation caller object =>
    if s.Runs caller then s.cancelProcessCreation caller object else none
  | .ramdiskSpawn caller level valid hasStacks =>
    if s.Runs caller then
      some { s with tasks := s.tasks.ramdiskSpawn caller level valid hasStacks }
    else none
  | .sendMessage caller target content tx =>
    if s.Runs caller then (s.message heap (.send target caller content tx)).map Prod.snd else none
  | .receiveMessage caller max tx =>
    if s.Runs caller then (s.message heap (.receive caller max tx)).map Prod.snd else none
  | .deleteTask thread =>
    if s.tasks.state thread = .scheduled then s.deleteTask thread else none
  | .init calls =>
    match s.tasks.state s.spawner, s.phase with
    | .scheduled, .starting => s.init calls
    | _, _ => none
  | .receiveRequests calls =>
    match s.tasks.state s.spawner, s.phase with
    | .scheduled, .receiving => s.receiveRequests heap calls
    | _, _ => none
  | .respond blocking =>
    if s.tasks.state s.spawner = .scheduled then s.respond heap blocking else none

/-- The kernel has loaded the idle process and the spawner, both at kernel level. The
request buffer holds what is on the stack. -/
def boot (requestBuffer : RequestBuffer) : System where
  messages := State.initial
  tasks :=
    { state := fun thread => if thread = 0 ∨ thread = 1 then .scheduled else .absent
      process := id
      securityLevel := fun _ => securityLevelKernel
      taskIdCounter := 2 }
  spawner := 1
  phase := .starting
  requestBuffer := requestBuffer
  started := []

end System

end Spawner
