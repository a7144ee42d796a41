import Mathlib.Algebra.Order.BigOperators.Group.List
import Mathlib.Algebra.Order.Group.Nat
import MeetiX.Base.Run
import MeetiX.Kernel.Messaging.MessageQueues

/-! Whole histories of the message system. The ledger keeps for each thread the messages that were
accepted, delivered and dropped by `clear`; it is written from the calls and their answers. -/
namespace Kernel.MessageController

open Base Mailboxes Function List

def execute (heap : BlockSource) (s : State) : Op → Option (Result × State)
  | .send target source content tx =>
    (sendMessage heap s target source content tx).map fun answer => (.sent answer.1, answer.2)
  | .receive target max tx =>
    (receiveMessage s target max tx).map fun answer =>
      (.received answer.1 (answer.2.1.map toMessage), answer.2.2)
  | .clear tid => (clear s tid).map fun t => (.cleared, t)

/-- Every call returns, and does to the queues what it does to mailboxes. -/
theorem execute_spec (heap : BlockSource) {s : State} {queued : Tid → List Nat}
    (h : Valid s queued []) (op : Op) :
    ∃ t queued', execute heap s op = some ((Mailboxes.execute (contents s) op).1, t) ∧
      Valid t queued' [] ∧ contents t = (Mailboxes.execute (contents s) op).2 ∧
      s.blocks ⊆ t.blocks := by
  cases op with
  | send target source content tx =>
    obtain ⟨t, queued', hSend, hRest⟩ :=
      sendMessage_spec heap h target source content tx
    exact ⟨t, queued', by simp [execute, hSend, Mailboxes.execute], hRest⟩
  | receive target max tx =>
    obtain ⟨out, t, queued', hReceive, hOut, hRest⟩ :=
      receiveMessage_spec h target max tx
    exact ⟨t, queued', by simp [execute, hReceive, hOut, Mailboxes.execute], hRest⟩
  | clear tid =>
    obtain ⟨t, queued', hClear, hRest⟩ := clear_spec h tid
    exact ⟨t, queued', by simp [execute, hClear, Mailboxes.execute], hRest⟩

theorem contents_initial : contents State.initial = fun _ => [] := by
  funext tid
  exact valid_initial.contents_eq tid

structure Ledger where
  state : State
  accepted : Tid → List Message
  delivered : Tid → List Message
  dropped : Tid → List Message

def Ledger.initial : Ledger := ⟨State.initial, fun _ => [], fun _ => [], fun _ => []⟩

/-- The entry that a call with its answer makes. -/
def Ledger.record (l : Ledger) (t : State) : Op → Result → Ledger
  | .send target source content tx, .sent .successful =>
    { l with
      state := t
      accepted := update l.accepted target
        (l.accepted target ++ [composed source content tx]) }
  | .receive target _ _, .received _ (some message) =>
    { l with
      state := t
      delivered := update l.delivered target (l.delivered target ++ [message]) }
  | .clear tid, _ =>
    { l with
      state := t
      dropped := update l.dropped tid (l.dropped tid ++ contents l.state tid) }
  | _, _ => { l with state := t }

def Step (heap : BlockSource) (l : Ledger) (label : Op × Result) (l' : Ledger) : Prop :=
  ∃ t, execute heap l.state label.1 = some (label.2, t) ∧ l' = l.record t label.1 label.2

@[simp] theorem record_state (l : Ledger) (t : State) (op : Op) (result : Result) :
    (l.record t op result).state = t := by
  unfold Ledger.record
  split <;> rfl

def Ledger.Balanced (l : Ledger) : Prop :=
  ∀ tid, (l.accepted tid).Perm (l.delivered tid ++ l.dropped tid ++ contents l.state tid)

variable {l : Ledger} {heap : BlockSource}

/-- One more accepted message is one more queued message, a delivered message
leaves the queue, and `clear` drops what is left. -/
theorem Ledger.Balanced.record {t : State} (h : l.Balanced) (op : Op)
    (hContents : contents t = (Mailboxes.execute (contents l.state) op).2) :
    (l.record t op (Mailboxes.execute (contents l.state) op).1).Balanced := by
  have hOther : ∀ tid, tid ≠ op.target → contents t tid = contents l.state tid := by
    intro tid hTid
    rw [hContents, execute_frame _ _ hTid]
  intro tid
  have hTid := h tid
  cases op with
  | send target source content tx =>
    rcases send_cases (contents l.state) target source content tx with
      ⟨hStatus, hBoxes⟩ | ⟨hStatus, hBoxes⟩
    · have hSame : contents t = contents l.state := hContents.trans hBoxes
      have hRecord : l.record t (.send target source content tx)
          (.sent (send (contents l.state) target source content tx).1) = { l with state := t } := by
        cases hSent : (send (contents l.state) target source content tx).1 <;>
          first
          | rfl
          | exact absurd hSent hStatus
      simpa [Mailboxes.execute, hRecord, hSame] using hTid
    · have hNew : contents t = update (contents l.state) target
          (contents l.state target ++ [composed source content tx]) := hContents.trans hBoxes
      by_cases hEq : tid = target
      · subst hEq
        simpa [Mailboxes.execute, Ledger.record, hStatus, hNew] using
          hTid.append_right [composed source content tx]
      · simpa [Mailboxes.execute, Ledger.record, hStatus, hEq, hOther tid hEq] using hTid
  | receive target max tx =>
    rcases receive_cases (contents l.state) target max tx with
      ⟨-, hOut, hBoxes⟩ | ⟨before, message, after, -, hOut, hBox, hBoxes⟩
    · have hSame : contents t = contents l.state := hContents.trans hBoxes
      simpa [Mailboxes.execute, Ledger.record, hOut, hSame] using hTid
    · by_cases hEq : tid = target
      · subst hEq
        have hNew : contents t tid = before ++ after := by
          rw [hContents.trans hBoxes, update_self]
        rw [hBox] at hTid
        simp only [Mailboxes.execute, Ledger.record, hOut, update_self, hNew]
        refine hTid.trans ?_
        rw [append_assoc, append_assoc, append_assoc]
        refine List.Perm.append_left _ ?_
        rw [← append_assoc]
        exact perm_middle.trans (by simp)
      · simpa [Mailboxes.execute, Ledger.record, hOut, hEq, hOther tid hEq] using hTid
  | clear target =>
    by_cases hEq : tid = target
    · subst hEq
      have hNew : contents t tid = [] := by
        simp [hContents, Mailboxes.execute, Mailboxes.clear]
      simpa [Ledger.record, hNew] using hTid
    · simpa [Ledger.record, hEq, hOther tid hEq] using hTid

structure Invariant (l : Ledger) : Prop where
  valid : ∃ queued, Valid l.state queued []
  balanced : l.Balanced

theorem invariant_initial : Invariant Ledger.initial := by
  refine ⟨⟨_, valid_initial⟩, fun tid => ?_⟩
  simp [Ledger.initial, contents_initial]

theorem Step.invariant {l' : Ledger} {label : Op × Result}
    (h : Invariant l) (hStep : Step heap l label l') : Invariant l' := by
  obtain ⟨queued, hValid⟩ := h.valid
  obtain ⟨t, hExecute, rfl⟩ := hStep
  obtain ⟨op, result⟩ := label
  obtain ⟨t', queued', hSpec, hValid', hContents, -⟩ := execute_spec heap hValid op
  obtain ⟨hResult, rfl⟩ := Prod.mk.inj (Option.some.inj (hSpec.symm.trans hExecute))
  have hBalanced := h.balanced.record op hContents
  rw [hResult] at hBalanced
  refine ⟨⟨queued', ?_⟩, hBalanced⟩
  rw [record_state]
  exact hValid'

theorem run_invariant {labels : List (Op × Result)}
    (run : Run (Step heap) Ledger.initial labels l) : Invariant l :=
  run.invariant invariant_initial fun _ _ _ h hStep => Step.invariant h hStep

/-- After every history each queue is a FIFO list of messages with a right and bounded total, and
every accepted message is delivered, dropped or still queued, exactly once. The next call does
what it would do to lists of messages: it returns, leaves other threads' queues alone, changes
nothing when a receive is refused, and a successful receive takes the oldest wanted message and
keeps the order of the others. -/
theorem queues_are_mailboxes (heap : BlockSource) {l : Ledger} {labels : List (Op × Result)}
    (run : Run (Step heap) Ledger.initial labels l) :
    (∀ tid, (queueOf l.state tid).total = ((contents l.state tid).map Message.length).sum ∧
      (queueOf l.state tid).total ≤ messageMaximumQueueContent) ∧
    (∀ tid, (l.accepted tid).Perm (l.delivered tid ++ l.dropped tid ++ contents l.state tid)) ∧
    (∀ op, ∃ result t, execute heap l.state op = some (result, t) ∧
      result = (Mailboxes.execute (contents l.state) op).1 ∧
      contents t = (Mailboxes.execute (contents l.state) op).2 ∧
      (∀ tid, tid ≠ op.target → contents t tid = contents l.state tid) ∧
      (∀ out, result = .received .queueEmpty out ∨ result = .received .exceedsBufferSize out →
        contents t = contents l.state)) ∧
    (∀ target max m rest, contents l.state target = m :: rest → headerSize + m.length ≤ max →
      ∃ t, execute heap l.state (.receive target max transactionNone) =
          some (.received .successful (some m), t) ∧
        contents t = update (contents l.state) target rest) ∧
    (∀ target max tx before m after, tx ≠ transactionNone →
      contents l.state target = before ++ m :: after → (∀ b ∈ before, b.transaction ≠ tx) →
      m.transaction = tx → headerSize + m.length ≤ max →
      ∃ t, execute heap l.state (.receive target max tx) =
          some (.received .successful (some m), t) ∧
        contents t = update (contents l.state) target (before ++ after)) := by
  obtain ⟨⟨queued, hValid⟩, hBalanced⟩ := run_invariant run
  have hReceive : ∀ target max tx before m after,
      contents l.state target = before ++ m :: after → (∀ b ∈ before, wanted tx b = false) →
      wanted tx m = true → headerSize + m.length ≤ max →
      ∃ t, execute heap l.state (.receive target max tx) =
          some (.received .successful (some m), t) ∧
        contents t = update (contents l.state) target (before ++ after) := by
    intro target max tx before m after hBox hBefore hWanted hMax
    obtain ⟨t, _, hExecute, -, hContents, -⟩ := execute_spec heap hValid (.receive target max tx)
    have hSplit := receive_split hBox hBefore hWanted hMax
    simp only [Mailboxes.execute, hSplit] at hExecute hContents
    exact ⟨t, hExecute, hContents⟩
  refine ⟨fun tid => ⟨hValid.total_eq tid, (hValid.queue tid).bounded⟩, hBalanced, ?_, ?_, ?_⟩
  · intro op
    obtain ⟨t, queued', hExecute, -, hContents, -⟩ := execute_spec heap hValid op
    refine ⟨_, t, hExecute, rfl, hContents, ?_, ?_⟩
    · intro tid hTid
      rw [hContents, execute_frame _ _ hTid]
    · intro out hRefused
      rw [hContents]
      cases op with
      | send target source content tx => simp [Mailboxes.execute] at hRefused
      | clear tid => simp [Mailboxes.execute] at hRefused
      | receive target max tx =>
        rcases receive_cases (contents l.state) target max tx with
          ⟨-, -, hBoxes⟩ | ⟨_, _, _, hStatus, -⟩
        · exact hBoxes
        · simp [Mailboxes.execute, hStatus] at hRefused
  · intro target max m rest hBox hMax
    exact hReceive target max transactionNone [] m rest hBox (by simp) (by simp [wanted]) hMax
  · intro target max tx before m after hTx hBox hBefore hm hMax
    refine hReceive target max tx before m after hBox ?_ (by simp [wanted, hm]) hMax
    intro b hb
    simp [wanted, hTx, hBefore b hb]

def growingHeap : BlockSource where
  new blocks _ := (blocks.map Prod.fst).sum + 1
  new_ne_zero _ _ := Nat.succ_ne_zero _
  new_fresh blocks _ hMem := by
    have hLe := le_sum_of_mem hMem
    omega

/-- Two threads send to thread 1, which gets the first message, or the second one if it asks for
its transaction. -/
theorem queues_are_mailboxes_two_messages :
    let labels := [(.send 1 2 [42] 0, .sent .successful), (.send 1 3 [43, 44] 7, .sent .successful)]
    let first : Message := ⟨2, 0, 1, [42]⟩
    let second : Message := ⟨3, 7, 2, [43, 44]⟩
    ∃ l, Run (Step growingHeap) Ledger.initial labels l ∧ contents l.state 1 = [first, second] ∧
      (∃ t, execute growingHeap l.state (.receive 1 64 0) =
          some (.received .successful (some first), t) ∧ contents t 1 = [second]) ∧
      ∃ t, execute growingHeap l.state (.receive 1 64 7) =
          some (.received .successful (some second), t) ∧ contents t 1 = [first] := by
  intro labels first second
  obtain ⟨s, _, hFirst, hValid, hOne, -⟩ :=
    execute_spec growingHeap valid_initial (.send 1 2 [42] 0)
  obtain ⟨t, _, hSecond, -, hContents, -⟩ :=
    execute_spec growingHeap hValid (.send 1 3 [43, 44] 7)
  rw [hOne, contents_initial] at hSecond hContents
  obtain ⟨l, rfl, run⟩ : ∃ l, l.state = t ∧ Run (Step growingHeap) Ledger.initial labels l := by
    have hSent : Step growingHeap Ledger.initial (.send 1 2 [42] 0, .sent .successful)
        (Ledger.initial.record s (.send 1 2 [42] 0) (.sent .successful)) := ⟨s, hFirst, rfl⟩
    refine ⟨_, ?_, (Run.single hSent).snoc ⟨t, hSecond, rfl⟩⟩
    rfl
  have hTwo : contents l.state 1 = [first, second] := by
    rw [hContents]
    decide
  obtain ⟨-, -, -, hOldest, hWanted⟩ := queues_are_mailboxes growingHeap run
  obtain ⟨u, hReceive, hRest⟩ := hOldest 1 64 first [second] hTwo (by decide)
  obtain ⟨v, hReceive', hRest'⟩ :=
    hWanted 1 64 7 [first] second [] (by decide) hTwo (by decide) rfl (by decide)
  exact ⟨l, run, hTwo, ⟨u, hReceive, by rw [hRest, update_self]⟩, v, hReceive',
    by rw [hRest', update_self, append_nil]⟩

/-- A send returns. It is accepted if its content is not too long and its queue has
room, and when it is refused the answer says which of the two was the reason. -/
def SendsAsPromised (heap : BlockSource) (s : State) (target source : Tid) (content : List UInt8)
    (tx : Nat) : Prop :=
  ∃ status t, sendMessage heap s target source content tx = some (status, t) ∧
    (content.length ≤ messageMaximumLength →
      (queueOf s target).total + content.length ≤ messageMaximumQueueContent →
      status = .successful) ∧
    (status ≠ .successful → status = .exceedsMaximum ∨ status = .queueFull)

theorem poolFor_eq_none_iff (size : Nat) : poolFor size = none ↔ 8192 ≤ size := by
  unfold poolFor
  split_ifs <;> simp <;> omega

/-- The largest pool has blocks of the maximum content length, but a block holds the header as
well and `get` wants it to be strictly larger. So lengths from 8172 on are refused with the code
of a failure, unless another check comes first. -/
theorem sends_as_promised_iff (heap : BlockSource) {l : Ledger} {labels : List (Op × Result)}
    (run : Run (Step heap) Ledger.initial labels l) (target source : Tid) (content : List UInt8)
    (tx : Nat) :
    SendsAsPromised heap l.state target source content tx ↔
      headerSize + content.length < Pool.pool8192.blockSize ∨
        messageMaximumLength < content.length ∨
        messageMaximumQueueContent < (queueOf l.state target).total + content.length := by
  obtain ⟨queued, hValid⟩ := (run_invariant run).valid
  obtain ⟨t, _, hSend, -, -⟩ := sendMessage_spec heap hValid target source content tx
  have hTotal : (queueOf l.state target).total = contentTotal (contents l.state target) :=
    hValid.total_eq target
  have hNone := poolFor_eq_none_iff (headerSize + content.length)
  unfold SendsAsPromised
  rw [hSend, hTotal, show Pool.pool8192.blockSize = 8192 from rfl]
  unfold Mailboxes.send
  by_cases hLong : content.length > messageMaximumLength
  · rw [if_pos hLong]
    exact ⟨fun _ => .inr (.inl hLong), fun _ =>
      ⟨_, _, rfl, fun hShort => absurd hLong (Nat.not_lt.mpr hShort), fun _ => .inl rfl⟩⟩
  by_cases hFull : contentTotal (contents l.state target) + content.length >
      messageMaximumQueueContent
  · rw [if_neg hLong, if_pos hFull]
    exact ⟨fun _ => .inr (.inr hFull), fun _ =>
      ⟨_, _, rfl, fun _ hRoom => absurd hFull (Nat.not_lt.mpr hRoom), fun _ => .inr rfl⟩⟩
  rw [if_neg hLong, if_neg hFull]
  cases hPool : poolFor (headerSize + content.length) with
  | some pool =>
    have hSize : headerSize + content.length < 8192 := by
      rw [hPool] at hNone
      simpa using hNone
    simp [hSize]
  | none =>
    have hSize : ¬ headerSize + content.length < 8192 := Nat.not_lt.mpr (hNone.mp hPool)
    simp [hSize, hLong, hFull]

/-- The longest content that a pool has blocks for. -/
theorem sends_as_promised_iff_longest :
    SendsAsPromised growingHeap Ledger.initial.state 1 2 (replicate 8171 0) 0 := by
  refine (sends_as_promised_iff growingHeap (Run.nil _) 1 2 (replicate 8171 0) 0).mpr ?_
  rw [length_replicate]
  exact .inl (by decide)

/-- A message of the maximum length to an empty queue fails. -/
theorem longest_message_fails : (replicate 8192 (0 : UInt8)).length = messageMaximumLength ∧
      (queueOf State.initial 1).total = 0 ∧
      ∃ t, sendMessage growingHeap State.initial 1 2 (replicate 8192 0) 0 =
        some (.failed, t) := by
  have hLength : (replicate 8192 (0 : UInt8)).length = 8192 := length_replicate
  refine ⟨hLength, rfl, ?_⟩
  generalize replicate 8192 (0 : UInt8) = content at hLength ⊢
  obtain ⟨t, _, hSend, -, -⟩ := sendMessage_spec growingHeap valid_initial 1 2 content 0
  have hNone : poolFor (headerSize + 8192) = none := (poolFor_eq_none_iff _).mpr (by decide)
  refine ⟨t, hSend.trans ?_⟩
  simp [Mailboxes.send, contents_initial, hLength, hNone, contentTotal, messageMaximumLength,
    messageMaximumQueueContent]

end Kernel.MessageController
