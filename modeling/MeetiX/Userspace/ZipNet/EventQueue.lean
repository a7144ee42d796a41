import MeetiX.Base.Run

/-! The events on their way through the window server. Receiver threads buffer key events and the
commands of clients, `process` takes them out, and a responder thread sends the answers,
interleaved in any way. All three buffers are emptied from the back. -/
namespace ZipNet

open Base

/-- A buffer with the back first, and what has been added to it and given to its reader so far. -/
structure Buffer (α : Type) where
  added : List α := []
  entries : List α := []
  taken : List α := []
  /-- The reader has the back and has not removed it yet. -/
  held : Bool := false

namespace Buffer

variable {α : Type} {b : Buffer α} {x : α} {rest : List α}

def pushBack (b : Buffer α) (x : α) : Buffer α :=
  { b with added := b.added ++ [x], entries := x :: b.entries }

def back (b : Buffer α) : Buffer α :=
  { b with taken := b.taken ++ b.entries.head?.toList, held := true }

def popBack (b : Buffer α) : Buffer α :=
  { b with entries := b.entries.tail, held := false }

/-- What has been added has been taken in this order, but for what is still to be taken. -/
def InOrder (b : Buffer α) : Prop :=
  b.added = b.taken ++ (if b.held then b.entries.tail else b.entries).reverse

/-- The buffer never has more than one entry. -/
structure Short (b : Buffer α) : Prop where
  inOrder : b.InOrder
  short : b.entries.length ≤ 1
  held : b.held = true → b.entries ≠ []

theorem Short.pushBack (h : b.Short) (hEmpty : b.entries = []) : (b.pushBack x).Short := by
  have hFree : b.held = false := by simpa [hEmpty] using h.held
  have hOrder := h.inOrder
  refine ⟨?_, by simp [Buffer.pushBack, hEmpty], by simp [Buffer.pushBack]⟩
  simpa [InOrder, Buffer.pushBack, hEmpty, hFree] using hOrder

theorem Short.back (h : b.Short) (hFree : b.held = false) (hSome : b.entries = x :: rest) :
    b.back.Short := by
  have hOrder := h.inOrder
  have hShort := h.short
  have hRest : rest = [] := by simpa [hSome] using hShort
  refine ⟨?_, hShort, by simp [Buffer.back, hSome]⟩
  simpa [InOrder, Buffer.back, hFree, hSome, hRest] using hOrder

theorem Short.popBack (h : b.Short) (hHeld : b.held = true) : b.popBack.Short := by
  have hOrder := h.inOrder
  refine ⟨?_, by simpa [Buffer.popBack] using Nat.le_succ_of_le h.short, by simp [Buffer.popBack]⟩
  simpa [InOrder, Buffer.popBack, hHeld] using hOrder

end Buffer

/-- Where the event loop is: in the first loop of `process`, in the second one, or between the two
lines of `sendResponse`. -/
inductive Stage
  | keys
  | commands
  | answered
deriving DecidableEq

structure EventLoop (Key Command : Type) where
  keyInfoBuffer : Buffer Key := {}
  commandMessageBuffer : Buffer Command := {}
  /-- The answers that the responder thread has to send, each for its command. -/
  responses : Buffer Command := {}
  focusedComponent : Option Nat := none
  dispatched : List (Nat × Key) := []
  stage : Stage := .keys
  bufferEmpty : Bool := true
  /-- The responder thread has the lock. -/
  responding : Bool := false

inductive Activity (Key Command : Type)
  | bufferKeyEvent (keyInfo : Key)
  | bufferCommandMessage (commandMessage : Command)
  | focus (component : Option Nat)
  /-- The next step of `process`, which the event loop calls again and again. -/
  | process
  /-- The next step of the responder thread. -/
  | respond

namespace EventLoop

variable {Key Command : Type} (answers : Command → Bool)

variable (s : EventLoop Key Command)

def translateKeyEvent (info : Key) : EventLoop Key Command :=
  match s.focusedComponent with
  | none => s
  | some component => { s with dispatched := s.dispatched ++ [(component, info)] }

def process : EventLoop Key Command :=
  match s.stage with
  | .keys =>
    if s.keyInfoBuffer.held then { s with keyInfoBuffer := s.keyInfoBuffer.popBack }
    else
      match s.keyInfoBuffer.entries with
      | [] => { s with stage := .commands }
      | info :: _ => { s with keyInfoBuffer := s.keyInfoBuffer.back }.translateKeyEvent info
  | .commands =>
    match s.commandMessageBuffer.entries with
    | [] => { s with stage := .keys }
    | command :: _ =>
      let s := { s with commandMessageBuffer := s.commandMessageBuffer.back.popBack }
      if answers command then
        { s with responses := s.responses.pushBack command, stage := .answered }
      else s
  | .answered => { s with bufferEmpty := false, stage := .commands }

def respond : EventLoop Key Command :=
  if s.responding then
    if s.responses.held then { s with responses := s.responses.popBack }
    else if s.responses.entries = [] then { s with responding := false }
    else { s with responses := s.responses.back }
  else if s.bufferEmpty then s
  else { s with bufferEmpty := true, responding := true }

def next : Activity Key Command → EventLoop Key Command
  | .bufferKeyEvent keyInfo => { s with keyInfoBuffer := s.keyInfoBuffer.pushBack keyInfo }
  | .bufferCommandMessage commandMessage =>
    { s with commandMessageBuffer := s.commandMessageBuffer.pushBack commandMessage }
  | .focus component => { s with focusedComponent := component }
  | .process => s.process answers
  | .respond => s.respond

/-- Nothing is buffered behind something else: not by the receiver threads, and not by the event
loop, which takes no command while an answer is still to be sent. -/
def Unhurried : Activity Key Command → Prop
  | .bufferKeyEvent _ => s.keyInfoBuffer.entries = []
  | .bufferCommandMessage _ => s.commandMessageBuffer.entries = []
  | .process =>
    s.stage = .commands → s.commandMessageBuffer.entries ≠ [] → s.responses.entries = []
  | _ => True

def UnhurriedStep (activity : Activity Key Command) (t : EventLoop Key Command) : Prop :=
  s.next answers activity = t ∧ s.Unhurried activity

structure Ordered : Prop where
  keys : s.keyInfoBuffer.Short
  commands : s.commandMessageBuffer.Short
  commands_free : s.commandMessageBuffer.held = false
  responses : s.responses.Short
  answered : s.responses.added = s.commandMessageBuffer.taken.filter answers
  dispatched : (s.dispatched.map Prod.snd).Sublist s.keyInfoBuffer.taken

section Steps

variable {answers} {s : EventLoop Key Command}

/-- The step lemma of the event loop, by the stage it is in. -/
theorem Ordered.process (h : Ordered answers s)
    (hCalm : s.Unhurried .process) : Ordered answers (s.process answers) := by
  unfold EventLoop.process
  split
  · split
    · next hHeld => exact { h with keys := h.keys.popBack hHeld }
    · next hHeld =>
        split
        · exact { h with }
        · next info rest hSome =>
            have hKeys := h.keys.back (Bool.eq_false_iff.mpr hHeld) hSome
            have hDispatched := h.dispatched.trans (List.sublist_append_left _ [info])
            unfold translateKeyEvent
            split
            · refine { h with keys := hKeys, dispatched := ?_ }
              simpa [Buffer.back, hSome] using hDispatched
            · refine { h with keys := hKeys, dispatched := ?_ }
              simpa [Buffer.back, hSome] using h.dispatched.append (List.Sublist.refl [info])
  · next hStage =>
      split
      · exact { h with }
      · next command rest hSome =>
          have hCommands := (h.commands.back h.commands_free hSome).popBack rfl
          have hAnswered := h.answered
          split
          · next hAnswer =>
              have hEmpty := hCalm hStage (by simp [hSome])
              refine { h with
                commands := hCommands, commands_free := rfl, responses := h.responses.pushBack hEmpty
                answered := ?_ }
              simp [Buffer.pushBack, Buffer.back, Buffer.popBack, hSome, hAnswered, hAnswer]
          · next hAnswer =>
              refine { h with commands := hCommands, commands_free := rfl, answered := ?_ }
              simp [Buffer.back, Buffer.popBack, hSome, hAnswered, hAnswer]
  · exact { h with }

theorem Ordered.respond (h : Ordered answers s) : Ordered answers s.respond := by
  unfold EventLoop.respond
  split
  · split
    · next hHeld => exact { h with responses := h.responses.popBack hHeld }
    · next hHeld =>
        split
        · exact { h with }
        · next hSome =>
            obtain ⟨command, rest, hEntries⟩ := List.exists_cons_of_ne_nil hSome
            exact { h with responses := h.responses.back (Bool.eq_false_iff.mpr hHeld) hEntries }
  · split
    · exact h
    · exact { h with }

theorem Ordered.next {activity : Activity Key Command} (h : Ordered answers s)
    (hCalm : s.Unhurried activity) : Ordered answers (s.next answers activity) := by
  cases activity with
  | bufferKeyEvent keyInfo => exact { h with keys := h.keys.pushBack hCalm }
  | bufferCommandMessage commandMessage => exact { h with commands := h.commands.pushBack hCalm }
  | focus component => exact { h with }
  | process => exact h.process hCalm
  | respond => exact h.respond

end Steps

/-- As long as nothing is buffered behind something else, the keys and the commands are handled and
the commands are answered in the order in which they were buffered, and none of them is lost. -/
theorem handled_in_order {activities : List (Activity Key Command)} {s : EventLoop Key Command}
    (h : Run (UnhurriedStep answers) {} activities s) :
    s.keyInfoBuffer.InOrder ∧ (s.dispatched.map Prod.snd).Sublist s.keyInfoBuffer.taken ∧
      s.commandMessageBuffer.InOrder ∧ s.responses.InOrder ∧
      s.responses.added = s.commandMessageBuffer.taken.filter answers := by
  have hEmpty : ∀ {α : Type}, ({} : Buffer α).Short := ⟨rfl, Nat.zero_le 1, nofun⟩
  have hOrdered : Ordered answers s := by
    refine h.invariant ⟨hEmpty, hEmpty, rfl, hEmpty, rfl, .refl _⟩ ?_
    rintro s activity t hOrdered ⟨rfl, hCalm⟩
    exact hOrdered.next hCalm
  exact ⟨hOrdered.keys.inOrder, hOrdered.dispatched, hOrdered.commands.inOrder,
    hOrdered.responses.inOrder, hOrdered.answered⟩

/-- A command and a key arrive and are handled, and the command is answered. -/
def handledRound (command key : Nat) : List (Activity Nat Nat) :=
  [.bufferCommandMessage command, .bufferKeyEvent key, .process, .process, .process, .process,
    .process, .respond, .respond, .respond]

instance (s : EventLoop Nat Nat) (activity : Activity Nat Nat) : Decidable (s.Unhurried activity) := by
  cases activity <;> unfold Unhurried <;> infer_instance

theorem handled_in_order_two_rounds :
    let activities := .focus (some 0) :: (handledRound 1 3 ++ handledRound 2 4)
    ∃ s, Run (UnhurriedStep fun _ => true) {} activities s ∧ s.dispatched = [(0, 3), (0, 4)] ∧
      s.commandMessageBuffer.taken = [1, 2] ∧ s.responses.taken = [1, 2] ∧
      s.keyInfoBuffer.InOrder ∧ s.responses.InOrder := by
  intro activities
  have hReplay := @run_replay (EventLoop Nat Nat) _ {} activities (fun s activity =>
    if s.Unhurried activity then some (s.next (fun _ => true) activity) else none) (by decide)
  have hRun : Run (UnhurriedStep fun _ => true) {} activities _ :=
    hReplay.of_mem fun s activity t _ hStep =>
      (Option.ite_none_right_eq_some.mp hStep).symm.imp_left Option.some.inj
  have hOrder := handled_in_order _ hRun
  exact ⟨_, hRun, by decide, by decide, by decide, hOrder.1, hOrder.2.2.2.1⟩

/-- Two commands, and then two keys, are buffered before `process` is called. -/
theorem handled_in_reverse :
    let s := ([.bufferCommandMessage 1, .bufferCommandMessage 2, .bufferKeyEvent 3, .bufferKeyEvent 4,
      .focus (some 0), .process, .process, .process, .process, .process, .process, .process, .process,
      .process] : List (Activity Nat Nat)).foldl (next fun _ => true) {}
    s.dispatched = [(0, 4), (0, 3)] ∧ s.commandMessageBuffer.taken = [2, 1] := by
  decide

end EventLoop

end ZipNet
