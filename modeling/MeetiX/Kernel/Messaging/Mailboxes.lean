import MeetiX.Kernel.Messaging.MessageController

/-! What the message system is for: each thread has a mailbox, a list of messages in the order of
their arrival. The linked queues are compared with it; it has no block, pointer or pool. -/
namespace Kernel.MessageController

open Function

structure Message where
  sender : Tid
  transaction : Nat
  length : Nat
  content : List UInt8
  deriving DecidableEq, Repr

abbrev Mailboxes := Tid → List Message

namespace Mailboxes

def composed (source : Tid) (content : List UInt8) (tx : Nat) : Message :=
  ⟨source, tx, content.length, content⟩

def contentTotal (messages : List Message) : Nat := (messages.map Message.length).sum

variable (boxes : Mailboxes)

/-- A message is accepted when its content is not too long, its mailbox has
room for it and some pool has blocks for it. It arrives behind all others. -/
def send (target source : Tid) (content : List UInt8) (tx : Nat) : SendStatus × Mailboxes :=
  if content.length > messageMaximumLength then (.exceedsMaximum, boxes)
  else if contentTotal (boxes target) + content.length > messageMaximumQueueContent then
    (.queueFull, boxes)
  else if (poolFor (headerSize + content.length)).isNone then (.failed, boxes)
  else (.successful,
    update boxes target (boxes target ++ [composed source content tx]))

/-- A receive asks for any message or for those of one transaction. -/
def wanted (tx : Nat) (message : Message) : Bool :=
  tx == transactionNone || message.transaction == tx

/-- The oldest wanted message leaves the mailbox if it fits into the buffer. -/
def receive (target : Tid) (max tx : Nat) : ReceiveStatus × Option Message × Mailboxes :=
  match (boxes target).find? (wanted tx) with
  | none => (.queueEmpty, none, boxes)
  | some message =>
    if headerSize + message.length > max then (.exceedsBufferSize, none, boxes)
    else (.successful, some message,
      update boxes target ((boxes target).eraseP (wanted tx)))

def clear (tid : Tid) : Mailboxes :=
  update boxes tid []

inductive Op
  | send (target source : Tid) (content : List UInt8) (tx : Nat)
  | receive (target : Tid) (max tx : Nat)
  | clear (tid : Tid)
  deriving DecidableEq, Repr

def Op.target : Op → Tid
  | .send target _ _ _ => target
  | .receive target _ _ => target
  | .clear tid => tid

inductive Result
  | sent (status : SendStatus)
  | received (status : ReceiveStatus) (out : Option Message)
  | cleared
  deriving DecidableEq, Repr

def execute : Op → Result × Mailboxes
  | .send target source content tx =>
    let answer := send boxes target source content tx
    (.sent answer.1, answer.2)
  | .receive target max tx =>
    let answer := receive boxes target max tx
    (.received answer.1 answer.2.1, answer.2.2)
  | .clear tid => (.cleared, clear boxes tid)

section Facts

variable {boxes : Mailboxes} {message : Message} {tid : Tid}

/-- The oldest wanted message is delivered and the others keep their order. -/
theorem receive_split {target : Tid} {max tx : Nat} {before after : List Message}
    (hBox : boxes target = before ++ message :: after)
    (hBefore : ∀ m ∈ before, wanted tx m = false) (hWanted : wanted tx message = true)
    (hMax : headerSize + message.length ≤ max) :
    receive boxes target max tx =
      (.successful, some message, update boxes target (before ++ after)) := by
  have hFind : (boxes target).find? (wanted tx) = some message := by
    rw [List.find?_eq_some_iff_append]
    exact ⟨hWanted, before, after, hBox, by simpa using hBefore⟩
  have hErase : (boxes target).eraseP (wanted tx) = before ++ after := by
    rw [hBox, List.eraseP_append_right _ (by simpa using hBefore), List.eraseP_cons_of_pos hWanted]
  simp [receive, hFind, hErase, Nat.not_lt.mpr hMax]

/-- A receive without a message leaves all mailboxes alone; otherwise the
message leaves its place in the mailbox of the target. -/
theorem receive_cases (boxes : Mailboxes) (target : Tid) (max tx : Nat) :
    (receive boxes target max tx).1 ≠ .successful ∧ (receive boxes target max tx).2.1 = none ∧
        (receive boxes target max tx).2.2 = boxes ∨
      ∃ before message after, (receive boxes target max tx).1 = .successful ∧
        (receive boxes target max tx).2.1 = some message ∧
        boxes target = before ++ message :: after ∧
        (receive boxes target max tx).2.2 = update boxes target (before ++ after) := by
  cases hFind : (boxes target).find? (wanted tx) with
  | none => simp [receive, hFind]
  | some message =>
    by_cases hMax : headerSize + message.length > max
    · simp [receive, hFind, hMax]
    · obtain ⟨hWanted, before, after, hBox, hBefore⟩ := List.find?_eq_some_iff_append.mp hFind
      right
      refine ⟨before, message, after, ?_⟩
      rw [receive_split hBox (by simpa using hBefore) hWanted (by omega)]
      exact ⟨rfl, rfl, hBox, rfl⟩

/-- A send changes the mailboxes only when it is accepted, and then puts the
message behind the others. -/
theorem send_cases (boxes : Mailboxes) (target source : Tid) (content : List UInt8) (tx : Nat) :
    (send boxes target source content tx).1 ≠ .successful ∧
        (send boxes target source content tx).2 = boxes ∨
      (send boxes target source content tx).1 = .successful ∧
        (send boxes target source content tx).2 =
          update boxes target (boxes target ++ [composed source content tx]) := by
  unfold send
  by_cases hLong : content.length > messageMaximumLength
  · simp [hLong]
  · by_cases hFull : contentTotal (boxes target) + content.length > messageMaximumQueueContent
    · simp [hLong, hFull]
    · by_cases hPool : poolFor (headerSize + content.length) = none <;>
        simp [hLong, hFull, hPool]

/-- A call touches the mailbox of its own target only. -/
theorem execute_frame (boxes : Mailboxes) (op : Op) (hTid : tid ≠ op.target) :
    (execute boxes op).2 tid = boxes tid := by
  cases op with
  | send target source content tx =>
    have hNe : tid ≠ target := hTid
    rcases send_cases boxes target source content tx with ⟨-, hBoxes⟩ | ⟨-, hBoxes⟩
    · simp [execute, hBoxes]
    · simp [execute, hBoxes, hNe]
  | receive target max tx =>
    have hNe : tid ≠ target := hTid
    rcases receive_cases boxes target max tx with ⟨-, -, hBoxes⟩ | ⟨_, _, _, -, -, -, hBoxes⟩
    · simp [execute, hBoxes]
    · simp [execute, hBoxes, hNe]
  | clear target =>
    have hNe : tid ≠ target := hTid
    simp [execute, clear, hNe]

theorem execute_mem {op : Op} (hMem : message ∈ (execute boxes op).2 tid) : message ∈ boxes tid ∨
      ∃ source content tx, op = .send tid source content tx ∧
        message = composed source content tx := by
  by_cases hTid : tid = op.target
  · subst hTid
    cases op with
    | send target source content tx =>
      rcases send_cases boxes target source content tx with ⟨-, hBoxes⟩ | ⟨-, hBoxes⟩
      · simp only [execute, hBoxes] at hMem
        exact .inl hMem
      · simp only [execute, hBoxes, Op.target, update_self, List.mem_append,
          List.mem_singleton] at hMem
        exact hMem.imp_right fun hNew => ⟨source, content, tx, rfl, hNew⟩
    | receive target max tx =>
      rcases receive_cases boxes target max tx with
        ⟨-, -, hBoxes⟩ | ⟨before, taken, after, -, -, hBox, hBoxes⟩
      · simp only [execute, hBoxes] at hMem
        exact .inl hMem
      · simp only [execute, hBoxes, Op.target, update_self, List.mem_append] at hMem
        rw [Op.target, hBox]
        exact .inl (List.mem_append.mpr (hMem.imp_right (List.mem_cons_of_mem _)))
    | clear thread => simp [execute, clear, Op.target] at hMem
  · rw [execute_frame boxes op hTid] at hMem
    exact .inl hMem

end Facts

end Mailboxes

end Kernel.MessageController
