import Mathlib.Algebra.BigOperators.Ring.List
import MeetiX.Kernel.Messaging.MessageHistory

/-! Who owns a message block. A block is in one queue or in the pool of the size it was made with,
and a queue of messages that are not empty holds a bounded number of blocks. The limit of a queue
counts content bytes only, so empty messages escape it. -/
namespace Kernel.MessageController

open Base Mailboxes List Ledger

def queuedBlocks (s : State) (tid : Tid) : List Nat :=
  walk s.memory s.blocks.length (queueOf s tid).first

variable {s : State} {queued : Tid → List Nat} {l l' : Ledger} {size : Nat} {pool : Pool}
variable {heap : BlockSource}

theorem Valid.queuedBlocks_eq (h : Valid s queued []) : queuedBlocks s = queued := by
  funext tid
  exact walk_eq (h.queue tid).linked.forward (h.length_le tid)

/-- Every block has one owner, and the owner is one of its size: a pool of that
size, or a queue in which its message leaves the block larger than needed and
asks for just this pool. -/
structure Owned (s : State) : Prop where
  one_place : ∀ m size, (m, size) ∈ s.blocks → ∃! place, m ∈ places s (queuedBlocks s) place
  once : ∀ place, (places s (queuedBlocks s) place).Nodup
  known : ∀ place, ∀ m ∈ places s (queuedBlocks s) place, ∃ size, (m, size) ∈ s.blocks
  pooled : ∀ m size pool, (m, size) ∈ s.blocks → m ∈ (s.pools pool).contents →
    pool.blockSize = size
  queued : ∀ m size tid, (m, size) ∈ s.blocks → m ∈ queuedBlocks s tid →
    headerSize + (s.memory m).length < size ∧
      ∃ pool, poolFor (headerSize + (s.memory m).length) = some pool ∧ pool.blockSize = size

theorem poolFor_lt (h : poolFor size = some pool) : size < pool.blockSize := by
  unfold poolFor at h
  split_ifs at h <;> cases h <;> assumption

section Owners

variable {s : State} {queued : Tid → List Nat}

theorem Valid.size_eq (h : Valid s queued []) {m size size' : Nat} (hm : (m, size) ∈ s.blocks)
    (hm' : (m, size') ∈ s.blocks) : size = size' :=
  congrArg Prod.snd (inj_on_of_nodup_map h.located.distinct hm hm' rfl)

theorem Valid.owned (h : Valid s queued []) : Owned s where
  one_place := by
    intro m size hBlock
    rw [h.queuedBlocks_eq]
    obtain ⟨_ | place, hPlace⟩ := (h.located.known m).mp (mem_map_of_mem hBlock)
    · cases hPlace
    · refine ⟨place, hPlace, fun other hOther => Option.some.inj ?_⟩
      exact @Exclusive.place_eq _ _ _ (some other) (some place) _ h.located.exclusive hOther hPlace
  once := by
    rw [h.queuedBlocks_eq]
    exact fun place => h.located.exclusive.nodup (some place)
  known := by
    intro place m hm
    rw [h.queuedBlocks_eq] at hm
    obtain ⟨⟨_, size⟩, hBlock, rfl⟩ := mem_map.mp ((h.located.known m).mpr ⟨some place, hm⟩)
    exact ⟨size, hBlock⟩
  pooled := by
    intro m size pool hBlock hm
    exact h.size_eq (h.pooled pool m hm) hBlock
  queued := by
    intro m size tid hBlock hm
    rw [h.queuedBlocks_eq] at hm
    obtain ⟨pool, hPool, hPoolBlock⟩ := h.fits tid m hm
    have hSize := h.size_eq hPoolBlock hBlock
    exact ⟨hSize ▸ poolFor_lt hPool, pool, hPool, hSize⟩

end Owners

theorem Step.valid {label : Op × Result}
    (h : Valid l.state queued []) (hStep : Step heap l label l') :
    ∃ queued', Valid l'.state queued' [] ∧ l.state.blocks ⊆ l'.state.blocks ∧
      contents l'.state = (Mailboxes.execute (contents l.state) label.1).2 := by
  obtain ⟨t, hExecute, rfl⟩ := hStep
  obtain ⟨t', queued', hSpec, hValid, hContents, hBlocks⟩ := execute_spec heap h label.1
  obtain ⟨-, rfl⟩ := Prod.mk.inj (Option.some.inj (hSpec.symm.trans hExecute))
  rw [record_state]
  exact ⟨queued', hValid, hBlocks, hContents⟩

/-- Over a history no block is lost and every one keeps its size. -/
theorem run_valid {labels : List (Op × Result)}
    (run : Run (Step heap) l labels l') (h : Valid l.state queued []) :
    ∃ queued', Valid l'.state queued' [] ∧ l.state.blocks ⊆ l'.state.blocks := by
  induction run with
  | nil => exact ⟨queued, h, List.Subset.refl _⟩
  | snoc prior last ih =>
    obtain ⟨middle, hMiddle, hPrior⟩ := ih
    obtain ⟨queued', hValid, hLast, -⟩ := last.valid hMiddle
    exact ⟨queued', hValid, List.Subset.trans hPrior hLast⟩

/-- At every moment of a history each block lies once in exactly one queue or pool stack. It keeps
its size, which is that of every pool it is ever pushed to and larger than the header and content
of every message it holds. -/
theorem blocks_have_one_owner (heap : BlockSource) {l l' : Ledger}
    {labels labels' : List (Op × Result)} (run : Run (Step heap) initial labels l)
    (later : Run (Step heap) l labels' l') :
    Owned l.state ∧ Owned l'.state ∧ l.state.blocks ⊆ l'.state.blocks := by
  obtain ⟨queued, hValid, -⟩ := run_valid run valid_initial
  obtain ⟨queued', hLater, hBlocks⟩ := run_valid later hValid
  exact ⟨hValid.owned, hLater.owned, hBlocks⟩

/-- Thread 2 sends one byte to thread 1, which receives it: the block goes from
the smallest pool to the queue and back. -/
theorem blocks_have_one_owner_one_byte :
    ∃ l l', Run (Step growingHeap) initial [(.send 1 2 [42] 0, .sent .successful)] l ∧
      Run (Step growingHeap) l
        [(.receive 1 64 0, .received .successful (some ⟨2, 0, 1, [42]⟩))] l' ∧
      contents l.state 1 = [⟨2, 0, 1, [42]⟩] ∧ contents l'.state 1 = [] ∧
      Owned l.state ∧ Owned l'.state ∧ l.state.blocks ⊆ l'.state.blocks := by
  obtain ⟨t, queued, hSend, hValid, hSent, -⟩ :=
    execute_spec growingHeap valid_initial (.send 1 2 [42] 0)
  obtain ⟨u, _, hReceive, -, hReceived, -⟩ := execute_spec growingHeap hValid (.receive 1 64 0)
  rw [hSent] at hReceive hReceived
  have run : Run (Step growingHeap) initial [(.send 1 2 [42] 0, .sent .successful)]
      (initial.record t (.send 1 2 [42] 0) (.sent .successful)) :=
    Run.single ⟨t, hSend, rfl⟩
  have later : Run (Step growingHeap)
      (initial.record t (.send 1 2 [42] 0) (.sent .successful))
      [(.receive 1 64 0, .received .successful (some ⟨2, 0, 1, [42]⟩))] _ :=
    Run.single ⟨u, hReceive, rfl⟩
  refine ⟨_, _, run, later, ?_, ?_, blocks_have_one_owner growingHeap run later⟩
  · rw [record_state, hSent]
    decide
  · rw [record_state, hReceived]
    decide

def Mailboxes.Op.NonEmpty : Op → Prop
  | .send _ _ content _ => content ≠ []
  | _ => True

def blockSizeOf (s : State) (m : Nat) : Nat := (s.blocks.lookup m).getD 0

def heldBytes (s : State) (tid : Tid) : Nat := ((queuedBlocks s tid).map (blockSizeOf s)).sum

theorem Valid.blockSizeOf_eq (h : Valid s queued [])
    {m : Nat} (hm : (m, size) ∈ s.blocks) : blockSizeOf s m = size := by
  cases hLookup : s.blocks.lookup m with
  | none =>
    have hNe := lookup_eq_none_iff.mp hLookup (m, size) hm
    simp at hNe
  | some other =>
    obtain ⟨before, after, hBlocks, -⟩ := lookup_eq_some_iff.mp hLookup
    have hOther : (m, other) ∈ s.blocks := by simp [hBlocks]
    rw [blockSizeOf, hLookup, Option.getD_some, h.size_eq hOther hm]

/-- A block is at most thirty-two times as large as the content it holds, unless
the content is empty. -/
theorem poolFor_blockSize_le {length : Nat} (hLength : 1 ≤ length)
    (h : poolFor (headerSize + length) = some pool) : pool.blockSize ≤ 32 * length := by
  unfold poolFor at h
  split_ifs at h <;> cases h <;> simp only [headerSize, Pool.blockSize] at * <;> omega

structure Filled (l : Ledger) : Prop where
  valid : ∃ queued, Valid l.state queued []
  filled : ∀ tid, ∀ message ∈ contents l.state tid, 1 ≤ message.length

theorem filled_initial : Filled initial where
  valid := ⟨_, valid_initial⟩
  filled := by simp [initial, contents_initial]

theorem Filled.step {heap : BlockSource} {l l' : Ledger} {label : Op × Result} (h : Filled l)
    (hStep : Step heap l label l') (hOp : label.1.NonEmpty) : Filled l' := by
  obtain ⟨queued, hValid⟩ := h.valid
  obtain ⟨queued', hLater, -, hContents⟩ := hStep.valid hValid
  refine ⟨⟨queued', hLater⟩, fun tid message hMem => ?_⟩
  rw [hContents] at hMem
  rcases execute_mem hMem with hOld | ⟨source, content, tx, hSend, rfl⟩
  · exact h.filled tid message hOld
  · rw [hSend] at hOp
    exact length_pos_iff.mpr hOp

theorem Filled.length_le (h : Filled l) (tid : Tid) :
    (contents l.state tid).length ≤ messageMaximumQueueContent := by
  obtain ⟨queued, hValid⟩ := h.valid
  calc (contents l.state tid).length
      ≤ ((contents l.state tid).map Message.length).sum := by
        simpa using length_le_sum_of_one_le ((contents l.state tid).map Message.length)
          (by simpa using h.filled tid)
    _ = (queueOf l.state tid).total := (hValid.total_eq tid).symm
    _ ≤ messageMaximumQueueContent := (hValid.queue tid).bounded

theorem Filled.heldBytes_le (h : Filled l) (tid : Tid) :
    heldBytes l.state tid ≤ 32 * messageMaximumQueueContent := by
  obtain ⟨queued, hValid⟩ := h.valid
  have hBlock : ∀ m ∈ queued tid, blockSizeOf l.state m ≤ 32 * (l.state.memory m).length := by
    intro m hm
    obtain ⟨pool, hPool, hBlock⟩ := hValid.fits tid m hm
    rw [hValid.blockSizeOf_eq hBlock]
    apply poolFor_blockSize_le _ hPool
    apply h.filled tid (toMessage (l.state.memory m))
    rw [hValid.contents_eq]
    exact mem_map_of_mem hm
  calc heldBytes l.state tid
      = ((queued tid).map (blockSizeOf l.state)).sum := by
        rw [heldBytes, hValid.queuedBlocks_eq]
    _ ≤ ((queued tid).map fun m => 32 * (l.state.memory m).length).sum :=
        sum_le_sum hBlock
    _ = 32 * (queueOf l.state tid).total := by
        rw [sum_map_mul_left, ← (hValid.queue tid).total]
    _ ≤ 32 * messageMaximumQueueContent :=
        Nat.mul_le_mul_left 32 ((hValid.queue tid).bounded)

/-- Without empty messages a queue holds at most as many messages as its limit
has bytes, in blocks of at most thirty-two times that size together. -/
theorem queue_bounded_nonempty (heap : BlockSource) {l : Ledger} {labels : List (Op × Result)}
    (run : Run (Step heap) initial labels l)
    (hLabels : ∀ label ∈ labels, Op.NonEmpty label.1) (tid : Tid) :
    (contents l.state tid).length ≤ messageMaximumQueueContent ∧
      heldBytes l.state tid ≤ 32 * messageMaximumQueueContent := by
  have hFilled : Filled l := run.invariant_of_mem filled_initial
    fun _ _ _ hMem h hStep => h.step hStep (hLabels _ hMem)
  exact ⟨hFilled.length_le tid, hFilled.heldBytes_le tid⟩

/-- A message of one byte takes up one of the smallest blocks. -/
theorem queue_bounded_nonempty_one_byte :
    ∃ l, Run (Step growingHeap) initial [(.send 1 2 [42] 0, .sent .successful)] l ∧
      (contents l.state 1).length = 1 ∧
      heldBytes l.state 1 ≤ 32 * messageMaximumQueueContent := by
  obtain ⟨t, _, hSend, -, hSent, -⟩ := execute_spec growingHeap valid_initial (.send 1 2 [42] 0)
  have run : Run (Step growingHeap) initial [(.send 1 2 [42] 0, .sent .successful)]
      (initial.record t (.send 1 2 [42] 0) (.sent .successful)) :=
    Run.single ⟨t, hSend, rfl⟩
  refine ⟨_, run, ?_, (queue_bounded_nonempty growingHeap run (by simp [Op.NonEmpty]) 1).2⟩
  rw [record_state, hSent]
  decide

theorem exists_run_empty_messages (heap : BlockSource) (count : Nat) :
    ∃ labels l, Run (Step heap) initial labels l ∧
      (∀ label ∈ labels, label = (.send 1 2 [] 0, .sent .successful)) ∧
      contents l.state 1 = replicate count (composed 2 [] 0) := by
  induction count with
  | zero => exact ⟨[], _, Run.nil _, by simp, by simp [initial, contents_initial]⟩
  | succ count ih =>
    obtain ⟨labels, l, run, hLabels, hContents⟩ := ih
    obtain ⟨queued, hValid⟩ := (run_invariant run).valid
    obtain ⟨t, _, hExecute, -, hSent, -⟩ := execute_spec heap hValid (.send 1 2 [] 0)
    have hSend : send (contents l.state) 1 2 [] 0 = (.successful,
        Function.update (contents l.state) 1 (contents l.state 1 ++ [composed 2 [] 0])) := by
      simp [send, hContents, contentTotal, composed, poolFor, headerSize]
    simp only [Mailboxes.execute, hSend] at hExecute hSent
    have last : Step heap l (.send 1 2 [] 0, .sent .successful) _ := ⟨t, hExecute, rfl⟩
    refine ⟨_, _, run.snoc last, ?_, ?_⟩
    · intro label hMem
      cases mem_append.mp hMem with
      | inl hOld => exact hLabels label hOld
      | inr hNew => exact mem_singleton.mp hNew
    · rw [record_state, hSent, Function.update_self, hContents, replicate_succ']

/-- No number bounds the queue of thread 1 in all histories in which thread 2 sends
it empty messages. -/
theorem empty_messages_unbounded : ¬∃ bound, ∀ labels l, Run (Step growingHeap) initial labels l →
      (∀ label ∈ labels, label = (.send 1 2 [] 0, .sent .successful)) →
      (contents l.state 1).length ≤ bound := by
  rintro ⟨bound, hBound⟩
  obtain ⟨labels, l, run, hLabels, hContents⟩ := exists_run_empty_messages growingHeap (bound + 1)
  have hLe := hBound labels l run hLabels
  rw [hContents, length_replicate] at hLe
  exact Nat.not_succ_le_self bound hLe

end Kernel.MessageController
