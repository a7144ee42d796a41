import MeetiX.Base.Exclusive
import MeetiX.Base.Linked
import MeetiX.Kernel.Messaging.Mailboxes

/-! What holds of the message blocks between two calls: every block lies in one queue or in the
pool its message asks for, and each queue is a doubly linked list whose total is the sum of its
content lengths. One lemma for each operation says what it does to the queues. -/
namespace Kernel.MessageController

open Base Base.Linked Function List
open Mailboxes (wanted receive composed send contentTotal)

variable (s : State)

/-- The head of a thread's queue. A thread without a queue has an empty one. -/
def queueOf (tid : Tid) : MessageQueueHead :=
  (s.queues.bind fun queues => queues.get tid).getD {}

inductive Place
  | pool (pool : Pool)
  | queue (tid : Tid)

variable (queued : Tid → List Nat)

/-- The blocks in each place, for queues with the listed blocks. -/
def places : Place → List Nat
  | .pool pool => (s.pools pool).contents
  | .queue tid => queued tid

/-- The block is large enough for its message and came from the pool that
releasing the message returns it to. -/
def Fits (m : Nat) : Prop :=
  ∃ pool, poolFor (headerSize + (s.memory m).length) = some pool ∧ (m, pool.blockSize) ∈ s.blocks

structure QueueAt (memory : Nat → MessageHeader) (queue : MessageQueueHead) (nodes : List Nat) :
    Prop where
  linked : Doubly (fun m => (memory m).next) (fun m => (memory m).previous) queue.first queue.last nodes
  total : queue.total = (nodes.map fun m => (memory m).length).sum
  bounded : queue.total ≤ messageMaximumQueueContent

variable {memory : Nat → MessageHeader} {fuel n : Nat}

theorem QueueAt.congr {memory' : Nat → MessageHeader} {queue : MessageQueueHead}
    {nodes : List Nat} (h : QueueAt memory queue nodes)
    (hMemory : ∀ m ∈ nodes, memory' m = memory m) : QueueAt memory' queue nodes := by
  refine ⟨h.linked.congr (fun m hm => ?_) fun m hm => ?_, ?_, h.bounded⟩
  · rw [hMemory m hm]
  · rw [hMemory m hm]
  · rw [h.total]
    congr 1
    exact map_congr_left fun m hm => by rw [hMemory m hm]

/-- The blocks in each place, and those in hand on their way between two places. -/
def spots (held : List Nat) : Option Place → List Nat
  | none => held
  | some place => places s queued place

/-- Every block from the heap is in one place or in hand. -/
structure Located (held : List Nat) : Prop where
  exclusive : Exclusive (spots s queued held)
  known : ∀ m, m ∈ s.blocks.map Prod.fst ↔ ∃ spot, m ∈ spots s queued held spot
  distinct : (s.blocks.map Prod.fst).Nodup
  ne_zero : 0 ∉ s.blocks.map Prod.fst

structure Valid (held : List Nat) : Prop where
  queue : ∀ tid, QueueAt s.memory (queueOf s tid) (queued tid)
  located : Located s queued held
  pooled : ∀ pool, ∀ m ∈ (s.pools pool).contents, (m, pool.blockSize) ∈ s.blocks
  fits : ∀ tid, ∀ m ∈ queued tid, Fits s m

variable {s t : State} {queued : Tid → List Nat} {held held' nodes : List Nat}

theorem places_congr (hPools : t.pools = s.pools) (queued : Tid → List Nat) :
    places t queued = places s queued := by
  funext place
  cases place with
  | pool pool => simp [places, hPools]
  | queue tid => rfl

theorem places_update_of_ne {target : Tid} {place : Place} (hPlace : place ≠ .queue target) :
    places s (update queued target nodes) place = places s queued place := by
  cases place with
  | pool pool => rfl
  | queue tid =>
    have hNe : tid ≠ target := fun h => hPlace (by rw [h])
    simp [places, hNe]

/-- The hand and one place have exchanged blocks. -/
theorem Located.exchange {queued' : Tid → List Nat} (h : Located s queued held) (place : Place)
    (hBlocks : t.blocks = s.blocks)
    (hOther : ∀ other, other ≠ place → places t queued' other = places s queued other)
    (hPerm : (held' ++ places t queued' place).Perm (held ++ places s queued place)) :
    Located t queued' held' := by
  have hRest : ∀ spot, spot ≠ none → spot ≠ some place →
      spots t queued' held' spot = spots s queued held spot := by
    rintro (_ | other) hNone hNe
    · exact absurd rfl hNone
    · exact hOther other fun hEq => hNe (congrArg some hEq)
  have hPerm : (spots t queued' held' none ++ spots t queued' held' (some place)).Perm
      (spots s queued held none ++ spots s queued held (some place)) := hPerm
  refine ⟨h.exclusive.exchange (Option.some_ne_none place).symm hPerm hRest, fun m => ?_, hBlocks ▸ h.distinct,
    hBlocks ▸ h.ne_zero⟩
  rw [hBlocks, h.known]
  exact ⟨Exclusive.exists_mem_exchange hPerm hRest, Exclusive.exists_mem_exchange hPerm.symm
    fun spot hNone hNe => (hRest spot hNone hNe).symm⟩

theorem valid_initial : Valid State.initial (fun _ => []) [] where
  queue _ := ⟨.empty, rfl, Nat.zero_le _⟩
  located := by
    have hEmpty : ∀ spot, spots State.initial (fun _ => []) [] spot = [] := by
      rintro (_ | _ | _) <;> simp [spots, places, State.initial]
    exact ⟨⟨by simp [hEmpty], by simp [hEmpty]⟩, fun m => by simp only [hEmpty]; simp [State.initial], nodup_nil,
      not_mem_nil⟩
  pooled := by simp [State.initial]
  fits := by simp

section Blocks

variable {s : State} {queued : Tid → List Nat}
variable {stack : AddressStack} {pool : Pool} {m size : Nat}

/-- Every block in use was taken from the heap, so no queue is longer than
the number of blocks. -/
theorem Valid.length_le (h : Valid s queued held) (tid : Tid) :
    (queued tid).length ≤ s.blocks.length := by
  have hSub : queued tid ⊆ s.blocks.map Prod.fst := fun m hm =>
    (h.located.known m).mpr ⟨some (.queue tid), hm⟩
  have hLength := (subperm_of_subset (h.queue tid).linked.nodup hSub).length_le
  simpa using hLength

theorem Valid.ne_zero_of_block (h : Valid s queued held) (hm : (m, size) ∈ s.blocks) : m ≠ 0 := by
  rintro rfl
  exact h.located.ne_zero (mem_map_of_mem hm)

theorem places_setPool_of_ne {place : Place} (hPlace : place ≠ .pool pool) :
    places (s.setPool pool stack) queued place = places s queued place := by
  cases place with
  | pool other =>
    have hNe : other ≠ pool := fun h => hPlace (by rw [h])
    simp [places, State.setPool, hNe]
  | queue tid => rfl

theorem places_setPool_self :
    places (s.setPool pool stack) queued (.pool pool) = stack.contents := by
  simp [places, State.setPool]

theorem Valid.setPool (h : Valid s queued held)
    (hPerm : (held' ++ stack.contents).Perm (held ++ (s.pools pool).contents))
    (hStack : ∀ m ∈ stack.contents, (m, pool.blockSize) ∈ s.blocks) :
    Valid (s.setPool pool stack) queued held' := by
  refine ⟨h.queue, ?_, ?_, h.fits⟩
  · refine h.located.exchange (.pool pool) rfl (fun _ => places_setPool_of_ne) ?_
    rwa [places_setPool_self]
  · intro other m hm
    by_cases hOther : other = pool
    · subst hOther
      simp only [State.setPool, update_self] at hm
      exact hStack m hm
    · simp only [State.setPool, update_of_ne hOther] at hm
      exact h.pooled other m hm

/-- A block in hand of the right size may be pushed onto its pool. -/
theorem Valid.push (h : Valid s queued (m :: held)) (pool : Pool)
    (hBlock : (m, pool.blockSize) ∈ s.blocks) :
    Valid (s.setPool pool ((s.pools pool).push m)) queued held := by
  apply h.setPool
  · rw [AddressStack.contents_push]
    exact perm_middle
  · rw [AddressStack.contents_push]
    exact forall_mem_cons.mpr ⟨hBlock, h.pooled pool⟩

theorem Valid.pop (h : Valid s queued held) {rest : List Nat}
    (hTop : (s.pools pool).contents = m :: rest) :
    (s.pools pool).pop.1 = m ∧ (m, pool.blockSize) ∈ s.blocks ∧
      Valid (s.setPool pool (s.pools pool).pop.2) queued (m :: held) := by
  obtain ⟨hAddress, hRest⟩ := AddressStack.pop_of_contents_cons hTop
  refine ⟨hAddress, h.pooled pool m (by simp [hTop]), h.setPool ?_ ?_⟩
  · rw [hRest, hTop]
    exact perm_middle.symm
  · rw [hRest]
    exact fun m' hm' => h.pooled pool m' (by simp [hTop, hm'])

theorem Valid.grow (h : Valid s queued held) (heap : BlockSource) (size : Nat) :
    Valid { s with blocks := (heap.new s.blocks size, size) :: s.blocks } queued
      (heap.new s.blocks size :: held) := by
  have hFresh : ∀ spot, heap.new s.blocks size ∉ spots s queued held spot := fun spot hm =>
    heap.new_fresh _ _ ((h.located.known _).mpr ⟨spot, hm⟩)
  have hMem : ∀ spot x, x ∈ spots { s with blocks := (heap.new s.blocks size, size) :: s.blocks }
      queued (heap.new s.blocks size :: held) spot ↔
      (spot = none ∧ x = heap.new s.blocks size) ∨ x ∈ spots s queued held spot := by
    rintro (_ | _ | _) x <;> simp [spots, places]
  refine ⟨h.queue, ⟨⟨?_, fun {spot other} hNe x hx hx' => ?_⟩, fun m => ?_, ?_, ?_⟩,
    ?_, ?_⟩
  · rintro (_ | _ | _)
    · exact nodup_cons.mpr ⟨hFresh none, h.located.exclusive.nodup none⟩
    · exact h.located.exclusive.nodup (some (.pool _))
    · exact h.located.exclusive.nodup (some (.queue _))
  · rw [hMem] at hx hx'
    rcases hx with ⟨rfl, rfl⟩ | hx <;> rcases hx' with ⟨rfl, hEq⟩ | hx'
    · exact hNe rfl
    · exact hFresh _ hx'
    · exact hFresh _ (hEq ▸ hx)
    · exact h.located.exclusive.apart hNe x hx hx'
  · simp only [map_cons, mem_cons, h.located.known, hMem, exists_or, exists_eq_left]
  · exact nodup_cons.mpr ⟨heap.new_fresh _ _, h.located.distinct⟩
  · simpa using ⟨(heap.new_ne_zero _ _).symm, by simpa using h.located.ne_zero⟩
  · exact fun pool m hm => mem_cons_of_mem _ (h.pooled pool m hm)
  · intro tid m hm
    obtain ⟨pool, hPool, hBlock⟩ := h.fits tid m hm
    exact ⟨pool, hPool, mem_cons_of_mem _ hBlock⟩

theorem refill_spec (heap : BlockSource) (pool : Pool) (rounds : Nat) (h : Valid s queued held) :
    Valid (refill heap pool pool.blockSize rounds s) queued held ∧
      (refill heap pool pool.blockSize rounds s).queues = s.queues ∧
      (refill heap pool pool.blockSize rounds s).memory = s.memory ∧
      s.blocks ⊆ (refill heap pool pool.blockSize rounds s).blocks ∧
      ((refill heap pool pool.blockSize rounds s).pools pool).contents.length =
        (s.pools pool).contents.length + rounds := by
  induction rounds generalizing s with
  | zero => exact ⟨h, rfl, rfl, List.Subset.refl _, rfl⟩
  | succ rounds ih =>
    rw [refill]
    simp only [heap.new_ne_zero]
    have hPushed := (h.grow heap pool.blockSize).push pool (by simp)
    obtain ⟨hValid, hQueues, hMemory, hBlocks, hLength⟩ := ih hPushed
    refine ⟨hValid, hQueues, hMemory, List.Subset.trans (subset_cons_self _ _) hBlocks, hLength.trans ?_⟩
    simp [State.setPool]
    omega

structure Taken (s t : State) (queued : Tid → List Nat) (pool : Pool) (m : Nat) : Prop where
  queues : t.queues = s.queues
  memory : t.memory = s.memory
  blocks : s.blocks ⊆ t.blocks
  valid : Valid t queued [m]
  block : (m, pool.blockSize) ∈ t.blocks

theorem getFromPool_of_contents (heap : BlockSource) (h : Valid s queued [])
    (hPool : (s.pools pool).contents ≠ []) (fuel : Nat) :
    ∃ m t, getFromPool heap pool pool.blockSize (fuel + 1) s = some (m, t) ∧
      Taken s t queued pool m := by
  obtain ⟨m, rest, hContents⟩ := exists_cons_of_ne_nil hPool
  obtain ⟨hAddress, hBlock, hValid⟩ := h.pop hContents
  refine ⟨m, s.setPool pool (s.pools pool).pop.2, ?_, rfl, rfl, List.Subset.refl _, hValid, hBlock⟩
  rw [getFromPool]
  simp [hAddress, h.ne_zero_of_block hBlock]

/-- The second look into the pool, after a refill, always finds a block. -/
theorem getFromPool_spec (heap : BlockSource) (pool : Pool) (h : Valid s queued []) :
    ∃ m t, getFromPool heap pool pool.blockSize 2 s = some (m, t) ∧ Taken s t queued pool m := by
  by_cases hPool : (s.pools pool).contents = []
  · obtain ⟨hAddress, hRest⟩ := AddressStack.pop_of_contents_nil hPool
    have hEmptied : Valid (s.setPool pool (s.pools pool).pop.2) queued [] :=
      h.setPool (by simp [hRest, hPool]) (by simp [hRest])
    obtain ⟨hValid, hQueues, hMemory, hBlocks, hLength⟩ := refill_spec heap pool 32 hEmptied
    have hFilled : ((refill heap pool pool.blockSize 32
        (s.setPool pool (s.pools pool).pop.2)).pools pool).contents ≠ [] := by
      intro hNil
      rw [hNil] at hLength
      simp at hLength
    obtain ⟨m, t, hGet, hTaken⟩ := getFromPool_of_contents heap hValid hFilled 0
    refine ⟨m, t, ?_, hTaken.queues.trans hQueues, hTaken.memory.trans hMemory,
      List.Subset.trans hBlocks hTaken.blocks, hTaken.valid, hTaken.block⟩
    rw [getFromPool]
    simpa [hAddress] using hGet
  · exact getFromPool_of_contents heap h hPool 1

theorem get_spec (heap : BlockSource) (h : Valid s queued []) (hPool : poolFor size = some pool) :
    ∃ m t, get heap size s = some (m, t) ∧ Taken s t queued pool m := by
  obtain ⟨m, t, hGet, hTaken⟩ := getFromPool_spec heap pool h
  exact ⟨m, t, by simp [get, hPool, hGet], hTaken⟩

theorem Valid.release (h : Valid s queued (m :: held)) (hFits : Fits s m) :
    Valid (release s m) queued held := by
  obtain ⟨pool, hPool, hBlock⟩ := hFits
  simp only [MessageController.release, hPool]
  exact h.push pool hBlock

theorem release_fields (s : State) (m : Nat) :
    (release s m).queues = s.queues ∧ (release s m).memory = s.memory ∧
      (release s m).blocks = s.blocks := by
  unfold release
  split <;> exact ⟨rfl, rfl, rfl⟩

theorem release_withQueues (s : State) (m : Nat) (queues : Option (HashMap Tid MessageQueueHead)) :
    release { s with queues := queues } m = { release s m with queues := queues } := by
  cases hPool : poolFor (headerSize + (s.memory m).length) with
  | none => simp [release, hPool]
  | some pool => simp [release, hPool, State.setPool]

theorem releaseAll_withQueues (fuel m : Nat) (s : State)
    (queues : Option (HashMap Tid MessageQueueHead)) :
    releaseAll fuel m { s with queues := queues } =
      (releaseAll fuel m s).map fun t => { t with queues := queues } := by
  induction fuel generalizing m s with
  | zero =>
    rw [releaseAll, releaseAll]
    split <;> rfl
  | succ fuel ih =>
    rw [releaseAll, releaseAll]
    split
    · rfl
    · rw [release_withQueues, ih]

/-- The loop of `clear` returns every block of a detached queue. -/
theorem releaseAll_spec {fuel : Nat} (h : Valid s queued nodes)
    (hSegment : Segment (fun m => (s.memory m).next) m nodes 0) (hFuel : nodes.length ≤ fuel)
    (hFits : ∀ x ∈ nodes, Fits s x) :
    ∃ t, releaseAll fuel m s = some t ∧ Valid t queued [] ∧ t.memory = s.memory ∧
      t.blocks = s.blocks := by
  induction nodes generalizing fuel m s with
  | nil =>
    refine ⟨s, ?_, h, rfl, rfl⟩
    have hm : m = 0 := hSegment
    cases fuel <;> simp [releaseAll, hm]
  | cons node nodes ih =>
    obtain ⟨rfl, hNode, hRest⟩ := hSegment
    obtain ⟨-, hMemory, hBlocks⟩ := release_fields s m
    cases fuel with
    | zero => simp at hFuel
    | succ fuel =>
      obtain ⟨t, hRelease, hValid, hMemory', hBlocks'⟩ :=
        ih (h.release (hFits m (by simp))) (hMemory.symm ▸ hRest) (Nat.le_of_succ_le_succ hFuel) (by
          intro x hx
          simpa [Fits, hMemory, hBlocks] using hFits x (by simp [hx]))
      refine ⟨t, ?_, hValid, hMemory'.trans hMemory, hBlocks'.trans hBlocks⟩
      rw [releaseAll, if_neg hNode]
      simpa only [hMemory] using hRelease

end Blocks

section Links

variable (memory : Nat → MessageHeader) (queue : MessageQueueHead) (message : Nat) {x : Nat}

theorem appendMessage_memory (hx : x ≠ 0) (hNe : x ≠ message) :
    (appendMessage memory queue message).1 x =
      { memory x with next := if x = queue.last then message else (memory x).next } := by
  by_cases hLast : queue.last = 0
  · simp [appendMessage, hLast, hNe, hx]
  · by_cases hxLast : x = queue.last
    · simp [appendMessage, hx, hNe, ← hxLast]
    · simp [appendMessage, hLast, hNe, hxLast]

theorem appendMessage_memory_self : (appendMessage memory queue message).1 message =
      { memory message with previous := queue.last, next := 0 } := by
  by_cases hLast : queue.last = 0
  · simp [appendMessage, hLast]
  · by_cases hSelf : message = queue.last <;> simp [appendMessage, hLast, hSelf]

theorem unlinkMessage_memory (hx : x ≠ 0) : (unlinkMessage memory queue message).1 x =
      { memory x with
        next := if x = (memory message).previous then (memory message).next else (memory x).next
        previous :=
          if x = (memory message).next then (memory message).previous else (memory x).previous } := by
  unfold unlinkMessage
  by_cases hNext : (memory message).next = 0 <;> by_cases hPrevious : (memory message).previous = 0 <;>
    by_cases hxNext : x = (memory message).next <;>
    by_cases hxPrevious : x = (memory message).previous <;>
    simp_all [update_apply]

theorem unlinkMessage_queue : (unlinkMessage memory queue message).2 =
      { queue with
        first := if (memory message).previous = 0 then (memory message).next else queue.first
        last := if (memory message).next = 0 then (memory message).previous else queue.last } := by
  unfold unlinkMessage
  by_cases hNext : (memory message).next = 0 <;>
    by_cases hPrevious : (memory message).previous = 0 <;> simp [hNext]

end Links

def toMessage (header : MessageHeader) : Message :=
  ⟨header.sender, header.transaction, header.length, header.bytes.take header.length⟩

/-- The blocks met when following `next` from `n`. -/
def walk (memory : Nat → MessageHeader) : Nat → Nat → List Nat
  | 0, _ => []
  | fuel + 1, n => if n = 0 then [] else n :: walk memory fuel (memory n).next

def contents (s : State) (tid : Tid) : List Message :=
  (walk s.memory s.blocks.length (queueOf s tid).first).map fun m => toMessage (s.memory m)

theorem walk_eq
    (hSegment : Segment (fun m => (memory m).next) n nodes 0) (hFuel : nodes.length ≤ fuel) :
    walk memory fuel n = nodes := by
  induction nodes generalizing fuel n with
  | nil =>
    have hn : n = 0 := hSegment
    cases fuel <;> simp [walk, hn]
  | cons node nodes ih =>
    obtain ⟨rfl, hNode, hRest⟩ := hSegment
    cases fuel with
    | zero => simp at hFuel
    | succ fuel => rw [walk, if_neg hNode, ih hRest (Nat.le_of_succ_le_succ hFuel)]

theorem findTransaction_eq {tx : Nat}
    (hSegment : Segment (fun m => (memory m).next) n nodes 0) (hFuel : nodes.length ≤ fuel) :
    findTransaction memory tx fuel n =
      some ((nodes.find? fun m => (memory m).transaction == tx).getD 0) := by
  induction nodes generalizing fuel n with
  | nil =>
    have hn : n = 0 := hSegment
    cases fuel <;> simp [findTransaction, hn]
  | cons node nodes ih =>
    obtain ⟨rfl, hNode, hRest⟩ := hSegment
    cases fuel with
    | zero => simp at hFuel
    | succ fuel =>
      rw [findTransaction, if_neg hNode, ih hRest (Nat.le_of_succ_le_succ hFuel)]
      by_cases hTx : (memory n).transaction = tx
      · simp [hTx]
      · simp [hTx, beq_eq_false_iff_ne.mpr hTx]

section Operations

variable {s : State} {queued : Tid → List Nat}
variable {t : State} {target tid : Tid} {queues : HashMap Tid MessageQueueHead} {m : Nat}
variable {before after : List Nat}

theorem Valid.contents_eq (h : Valid s queued held) (tid : Tid) :
    contents s tid = (queued tid).map fun m => toMessage (s.memory m) := by
  rw [contents, walk_eq (h.queue tid).linked.forward (h.length_le tid)]

theorem Valid.contents_congr (ht : Valid t queued held') (h : Valid s queued held)
    (hMemory : t.memory = s.memory) : contents t = contents s := by
  funext tid
  rw [ht.contents_eq, h.contents_eq, hMemory]

theorem Valid.total_eq (h : Valid s queued held) (tid : Tid) :
    (queueOf s tid).total = contentTotal (contents s tid) := by
  rw [(h.queue tid).total, h.contents_eq, contentTotal, map_map]
  rfl

/-- One queue has exchanged blocks with the hand, and the messages of the others have not
been touched. -/
theorem Valid.replaceQueue (h : Valid s queued held)
    (hOther : ∀ tid, tid ≠ target → queueOf t tid = queueOf s tid)
    (hPools : t.pools = s.pools) (hBlocks : t.blocks = s.blocks)
    (hMemory : ∀ tid, tid ≠ target → ∀ m ∈ queued tid, t.memory m = s.memory m)
    (hQueue : QueueAt t.memory (queueOf t target) nodes)
    (hPerm : (held' ++ nodes).Perm (held ++ queued target)) (hFits : ∀ m ∈ nodes, Fits t m) :
    Valid t (update queued target nodes) held' ∧
      contents t = update (contents s) target (nodes.map fun m => toMessage (t.memory m)) := by
  have hValid : Valid t (update queued target nodes) held' := by
    refine ⟨fun tid => ?_, h.located.exchange (.queue target) hBlocks (fun other hNe => ?_)
      (by simpa [places] using hPerm), ?_, fun tid => ?_⟩
    · by_cases hTid : tid = target
      · subst hTid
        simpa using hQueue
      · rw [update_of_ne hTid, hOther tid hTid]
        exact (h.queue tid).congr (hMemory tid hTid)
    · rw [places_congr hPools, places_update_of_ne hNe]
    · rw [hPools, hBlocks]
      exact h.pooled
    · by_cases hTid : tid = target
      · subst hTid
        simpa using hFits
      · rw [update_of_ne hTid]
        intro m hm
        obtain ⟨pool, hPool, hBlock⟩ := h.fits tid m hm
        exact ⟨pool, by rw [hMemory tid hTid m hm, hPool], hBlocks ▸ hBlock⟩
  refine ⟨hValid, funext fun tid => ?_⟩
  rw [hValid.contents_eq]
  by_cases hTid : tid = target
  · subst hTid
    simp
  · rw [update_of_ne hTid, update_of_ne hTid, h.contents_eq]
    exact map_congr_left fun m hm => by rw [hMemory tid hTid m hm]

theorem Valid.withQueues (h : Valid s queued held) {queues : Option (HashMap Tid MessageQueueHead)}
    (hQueues : ∀ tid, queueOf { s with queues := queues } tid = queueOf s tid) :
    Valid { s with queues := queues } queued held ∧
      contents { s with queues := queues } = contents s := by
  have hLocated : Located { s with queues := queues } queued held :=
    h.located.exchange (.queue 0) rfl (fun _ _ => congrFun (places_congr rfl queued) _) (.refl _)
  refine ⟨⟨?_, hLocated, h.pooled, h.fits⟩, ?_⟩
  · simpa only [hQueues] using h.queue
  · funext tid
    simp only [contents, hQueues]

theorem queueOf_assign (hQueues : s.queues = some queues)
    (target : Tid) (queue : MessageQueueHead) (memory : Nat → MessageHeader) :
    queueOf { s with memory := memory, queues := some (queues.assign target queue) } target = queue ∧
      ∀ tid, tid ≠ target →
        queueOf { s with memory := memory, queues := some (queues.assign target queue) } tid =
          queueOf s tid := by
  refine ⟨by simp [queueOf], fun tid hTid => ?_⟩
  simp [queueOf, hQueues, HashMap.get_assign_of_ne queues queue (Ne.symm hTid)]

theorem Valid.not_queued (h : Valid s queued held) {other : Tid} (hNe : tid ≠ other)
    (hm : m ∈ queued tid) : m ∉ queued other := by
  have hSpots : some (Place.queue tid) ≠ some (Place.queue other) := by simpa using hNe
  exact h.located.exclusive.apart hSpots m hm

theorem Valid.ne_zero (h : Valid s queued held) (hm : m ∈ queued tid) : m ≠ 0 :=
  (h.queue tid).linked.forward.ne_zero m hm

/-- A block in hand with a new message is appended to the queue of `target`. -/
theorem Valid.append (h : Valid s queued [m]) (hQueues : s.queues = some queues) {pool : Pool}
    (hBlock : (m, pool.blockSize) ∈ s.blocks) (target source : Tid) (content : List UInt8) (tx : Nat)
    (hPool : poolFor (headerSize + content.length) = some pool)
    (hRoom : (queueOf s target).total + content.length ≤ messageMaximumQueueContent)
    (ht : t = { s with
      memory := (appendMessage (writeMessage s.memory m source content tx) (queueOf s target) m).1
      queues := some (queues.assign target
        { (appendMessage (writeMessage s.memory m source content tx) (queueOf s target) m).2 with
          total := (queueOf s target).total + content.length }) }) :
    Valid t (update queued target (queued target ++ [m])) [] ∧
      contents t = update (contents s) target
        (contents s target ++ [composed source content tx]) := by
  obtain ⟨hTarget, hOther⟩ := queueOf_assign hQueues target
    { (appendMessage (writeMessage s.memory m source content tx) (queueOf s target) m).2 with
      total := (queueOf s target).total + content.length }
    (appendMessage (writeMessage s.memory m source content tx) (queueOf s target) m).1
  rw [← ht] at hTarget hOther
  have hLoose : ∀ tid, m ∉ queued tid := fun tid =>
    h.located.exclusive.apart (nofun : none ≠ some (Place.queue tid)) m (mem_singleton_self m)
  have hOld : ∀ x, x ≠ 0 → x ≠ m → t.memory x =
      { s.memory x with next := if x = (queueOf s target).last then m else (s.memory x).next } := by
    intro x hx hNe
    rw [ht]
    simp only [appendMessage_memory _ _ _ hx hNe, writeMessage, update_of_ne hNe]
  have hNew : t.memory m =
      { sender := source, transaction := tx, length := content.length,
        previous := (queueOf s target).last, next := 0,
        bytes := content ++ (s.memory m).bytes.drop content.length } := by
    rw [ht]
    simp only [appendMessage_memory_self, writeMessage, update_self]
  have hQueued : ∀ x ∈ queued target, t.memory x =
      { s.memory x with next := if x = (queueOf s target).last then m else (s.memory x).next } := by
    intro x hx
    exact hOld x (h.ne_zero hx) (fun hEq => hLoose target (hEq ▸ hx))
  have hMemory : ∀ tid, tid ≠ target → ∀ x ∈ queued tid, t.memory x = s.memory x := by
    intro tid hTid x hx
    have hNe : x ≠ m := fun hEq => hLoose tid (hEq ▸ hx)
    have hLast : x ≠ (queueOf s target).last := by
      intro hEq
      cases (h.queue target).linked.backward.head_mem with
      | inl hZero => exact h.ne_zero hx (hEq.trans hZero)
      | inr hMem => exact h.not_queued hTid hx (hEq ▸ mem_reverse.mp hMem)
    rw [hOld x (h.ne_zero hx) hNe, if_neg hLast]
  have hLinked : Doubly (fun x => (t.memory x).next) (fun x => (t.memory x).previous)
      (queueOf t target).first (queueOf t target).last (queued target ++ [m]) := by
    rw [hTarget]
    apply (h.queue target).linked.concat (h.ne_zero_of_block hBlock) (hLoose target)
    · simp only [hNew]
    · simp only [hNew]
    · intro x hx
      simp only [hQueued x hx]
    · intro x hx
      simp only [hQueued x hx]
  have hTotal : (queueOf t target).total =
      ((queued target ++ [m]).map fun x => (t.memory x).length).sum := by
    have hMap : (queued target).map (fun x => (t.memory x).length) =
        (queued target).map fun x => (s.memory x).length :=
      map_congr_left fun x hx => by rw [hQueued x hx]
    rw [hTarget, map_append, hMap, sum_append, ← (h.queue target).total]
    simp [hNew]
  have hFits : ∀ x ∈ queued target ++ [m], Fits t x := by
    intro x hx
    rw [mem_append, mem_singleton] at hx
    cases hx with
    | inl hx =>
      obtain ⟨old, hOldPool, hOldBlock⟩ := h.fits target x hx
      exact ⟨old, by rw [hQueued x hx, hOldPool], by rw [ht]; exact hOldBlock⟩
    | inr hx => exact ⟨pool, by rw [hx, hNew, hPool], by rw [ht, hx]; exact hBlock⟩
  have hPerm : ([] ++ (queued target ++ [m])).Perm ([m] ++ queued target) :=
    @List.perm_append_comm _ (queued target) [m]
  obtain ⟨hValid, hContents⟩ := h.replaceQueue hOther (by rw [ht]) (by rw [ht]) hMemory
    ⟨hLinked, hTotal, by rw [hTarget]; exact hRoom⟩ hPerm hFits
  refine ⟨hValid, ?_⟩
  rw [hContents, h.contents_eq target, map_append]
  have hMap : (queued target).map (fun x => toMessage (t.memory x)) =
      (queued target).map fun x => toMessage (s.memory x) :=
    map_congr_left fun x hx => by rw [hQueued x hx]; rfl
  have hComposed : toMessage (t.memory m) = composed source content tx := by
    simp [hNew, toMessage, composed]
  rw [hMap, map_singleton, hComposed]

/-- The preparation of a send, which creates the map and the queue head when
they are missing, shows the same queues. -/
theorem queueOf_prepared (s : State) (target tid : Tid) : let queues := s.queues.getD HashMap.empty
    queueOf { s with queues := some queues } tid = queueOf s tid ∧
      queueOf { s with queues := some (if (queues.get target).isNone then
        queues.add target ((queues.get target).getD {}) else queues) } tid = queueOf s tid ∧
      (queues.get target).getD {} = queueOf s target := by
  have hQueue : ∀ tid, ((s.queues.getD HashMap.empty).get tid).getD {} = queueOf s tid := by
    intro tid
    cases hQueues : s.queues <;> simp [queueOf, hQueues]
  refine ⟨hQueue tid, ?_, hQueue target⟩
  cases hGet : (s.queues.getD HashMap.empty).get target with
  | some queue => simpa [queueOf] using hQueue tid
  | none =>
    by_cases hTid : target = tid
    · subst hTid
      simpa [queueOf, hGet] using hQueue target
    · simpa [queueOf, HashMap.get_add_of_ne _ _ hTid] using hQueue tid

/-- `sendMessage` does to the queues what sending does to the mailboxes. -/
theorem sendMessage_spec (heap : BlockSource) (h : Valid s queued []) (target source : Tid)
    (content : List UInt8) (tx : Nat) :
    ∃ t queued', sendMessage heap s target source content tx =
        some ((send (contents s) target source content tx).1, t) ∧
      Valid t queued' [] ∧ contents t = (send (contents s) target source content tx).2 ∧
      s.blocks ⊆ t.blocks := by
  obtain ⟨-, -, hQueue⟩ := queueOf_prepared s target target
  obtain ⟨hMapped, hMappedContents⟩ := h.withQueues
    (fun tid => (queueOf_prepared s target tid).1)
  obtain ⟨hReady, hReadyContents⟩ := h.withQueues
    (fun tid => (queueOf_prepared s target tid).2.1)
  have hReadyQueue := (queueOf_prepared s target target).2.1
  have hTotal := h.total_eq target
  have hBounded := (h.queue target).bounded
  unfold sendMessage send
  simp only [hQueue, ← hTotal] at hReady hReadyContents hReadyQueue ⊢
  by_cases hLong : content.length > messageMaximumLength
  · simp only [if_pos hLong]
    exact ⟨_, queued, rfl, hMapped, hMappedContents, List.Subset.refl _⟩
  · have hWrap : wrap32 ((queueOf s target).total + content.length) =
        (queueOf s target).total + content.length := by
      apply wrap32_of_lt
      simp only [messageMaximumLength, messageMaximumQueueContent, wordSize] at *
      omega
    simp only [if_neg hLong, hWrap]
    by_cases hFull : (queueOf s target).total + content.length > messageMaximumQueueContent
    · simp only [if_pos hFull]
      exact ⟨_, queued, rfl, hReady, hReadyContents, List.Subset.refl _⟩
    · simp only [if_neg hFull]
      cases hPool : poolFor (headerSize + content.length) with
      | none =>
        simp only [get, hPool]
        exact ⟨_, queued, rfl, hReady, hReadyContents, List.Subset.refl _⟩
      | some pool =>
        obtain ⟨m, taken, hGet, hTaken⟩ := get_spec heap hReady hPool
        have hSame : queueOf taken = queueOf s := by
          funext tid
          simp only [queueOf, hTaken.queues]
          simpa only [queueOf, hQueue] using (queueOf_prepared s target tid).2.1
        have hTakenContents : contents taken = contents s :=
          hTaken.valid.contents_congr h hTaken.memory
        simp only [hGet, if_neg (hTaken.valid.ne_zero_of_block hTaken.block)]
        have hAppend := hTaken.valid.append hTaken.queues hTaken.block target source content tx hPool
          (by rw [hSame]; omega) rfl
        rw [hSame, hTakenContents] at hAppend
        have hTotalAppend : (appendMessage (writeMessage taken.memory m source content tx)
            (queueOf s target) m).2.total = (queueOf s target).total := rfl
        obtain ⟨hValid, hContents⟩ := hAppend
        refine ⟨_, _, ?_, hValid, hContents, hTaken.blocks⟩
        simp [hTotalAppend, hWrap]

/-- A message is taken out of its queue, wherever it stands there, and its block is in hand. -/
theorem Valid.unlink (h : Valid s queued []) (hQueues : s.queues = some queues)
    (hSplit : queued target = before ++ m :: after)
    (ht : t = { s with
      memory := (unlinkMessage s.memory (queueOf s target) m).1
      queues := some (queues.assign target
        { (unlinkMessage s.memory (queueOf s target) m).2 with
          total := (queueOf s target).total - (s.memory m).length }) }) :
    Valid t (update queued target (before ++ after)) [m] ∧ Fits t m ∧
      contents t = update (contents s) target
        ((before ++ after).map fun x => toMessage (s.memory x)) := by
  obtain ⟨hTarget, hOther⟩ := queueOf_assign hQueues target
    { (unlinkMessage s.memory (queueOf s target) m).2 with
      total := (queueOf s target).total - (s.memory m).length }
    (unlinkMessage s.memory (queueOf s target) m).1
  rw [← ht] at hTarget hOther
  have hm : m ∈ queued target := by simp [hSplit]
  have hDoubly := (h.queue target).linked
  rw [hSplit] at hDoubly
  obtain ⟨hBefore, hAfter⟩ := hDoubly.split
  have hSub : ∀ x ∈ before ++ after, x ∈ queued target := by
    intro x hx
    rw [hSplit, mem_append, mem_cons]
    rw [mem_append] at hx
    cases hx with
    | inl hx => exact .inl hx
    | inr hx => exact .inr (.inr hx)
  have hMem : ∀ x, x ≠ 0 → t.memory x =
      { s.memory x with
        next := if x = (s.memory m).previous then (s.memory m).next else (s.memory x).next
        previous :=
          if x = (s.memory m).next then (s.memory m).previous else (s.memory x).previous } := by
    intro x hx
    rw [ht]
    exact unlinkMessage_memory s.memory (queueOf s target) m hx
  have hMemory : ∀ tid, tid ≠ target → ∀ x ∈ queued tid, t.memory x = s.memory x := by
    intro tid hTid x hx
    have hNot : x ∉ before ++ after := fun hIn => h.not_queued hTid hx (hSub x hIn)
    rw [mem_append, not_or] at hNot
    have hPrevious : x ≠ (s.memory m).previous := by
      rintro rfl
      exact hBefore.head_mem.elim (h.ne_zero hx) fun hIn => hNot.1 (mem_reverse.mp hIn)
    have hNext : x ≠ (s.memory m).next := by
      rintro rfl
      exact hAfter.head_mem.elim (h.ne_zero hx) hNot.2
    rw [hMem x (h.ne_zero hx), if_neg hPrevious, if_neg hNext]
  have hLinked : Doubly (fun x => (t.memory x).next) (fun x => (t.memory x).previous)
      (queueOf t target).first (queueOf t target).last (before ++ after) := by
    rw [hTarget, unlinkMessage_queue]
    apply hDoubly.remove
    · intro x hx
      simp only [hMem x (h.ne_zero (hSub x hx))]
    · intro x hx
      simp only [hMem x (h.ne_zero (hSub x hx))]
  have hLengths : (before ++ after).map (fun x => (t.memory x).length) =
      (before ++ after).map fun x => (s.memory x).length :=
    map_congr_left fun x hx => by rw [hMem x (h.ne_zero (hSub x hx))]
  have hTotal : (queueOf t target).total =
      ((before ++ after).map fun x => (t.memory x).length).sum := by
    rw [hLengths, hTarget, (h.queue target).total, hSplit]
    simp
    omega
  have hFits : ∀ x ∈ queued target, Fits t x := by
    intro x hx
    obtain ⟨pool, hPool, hBlock⟩ := h.fits target x hx
    exact ⟨pool, by rw [hMem x (h.ne_zero hx), hPool], by rw [ht]; exact hBlock⟩
  have hBound : (queueOf t target).total ≤ messageMaximumQueueContent := by
    rw [hTarget]
    exact le_trans (Nat.sub_le _ _) (h.queue target).bounded
  have hPerm : ([m] ++ (before ++ after)).Perm ([] ++ queued target) :=
    hSplit ▸ (@List.perm_middle _ m before after).symm
  obtain ⟨hValid, hContents⟩ := h.replaceQueue hOther (by rw [ht]) (by rw [ht]) hMemory
    ⟨hLinked, hTotal, hBound⟩ hPerm fun x hx => hFits x (hSub x hx)
  refine ⟨hValid, hFits m hm, ?_⟩
  rw [hContents]
  congr 1
  exact map_congr_left fun x hx => by rw [hMem x (h.ne_zero (hSub x hx))]; rfl

theorem Valid.found_eq (h : Valid s queued held) (target : Tid) (tx : Nat) :
    (if tx = transactionNone then some (queueOf s target).first
      else findTransaction s.memory tx s.blocks.length (queueOf s target).first) =
      some (((queued target).find? fun m => wanted tx (toMessage (s.memory m))).getD 0) := by
  by_cases hTx : tx = transactionNone
  · rw [if_pos hTx, (h.queue target).linked.forward.head_eq]
    cases queued target with
    | nil => rfl
    | cons m rest => simp [wanted, hTx]
  · rw [if_neg hTx, findTransaction_eq (h.queue target).linked.forward (h.length_le target)]
    simp [wanted, toMessage, beq_eq_false_iff_ne.mpr hTx]

theorem Valid.contents_nil (h : Valid s queued held) (hQueue : queueOf s target = {}) :
    contents s target = [] := by
  have hNil : queued target = [] := by
    rw [← (h.queue target).linked.forward.head_eq_zero_iff, hQueue]
  rw [h.contents_eq, hNil, map_nil]

/-- Taking the wanted block out of a list of blocks is taking the wanted
message out of the list of messages. -/
theorem eraseP_split {memory : Nat → MessageHeader} {tx : Nat}
    (hBefore : ∀ x ∈ before, wanted tx (toMessage (memory x)) = false)
    (hm : wanted tx (toMessage (memory m)) = true) :
    ((before ++ m :: after).map fun x => toMessage (memory x)).eraseP (wanted tx) =
      (before ++ after).map fun x => toMessage (memory x) := by
  have hNone : ∀ y ∈ before.map (fun x => toMessage (memory x)), ¬ wanted tx y = true := by
    intro y hy
    obtain ⟨x, hx, rfl⟩ := mem_map.mp hy
    simp [hBefore x hx]
  rw [map_append, map_cons, eraseP_append_right _ hNone,
    eraseP_cons_of_pos hm, map_append]

/-- `receiveMessage` does to the queues what receiving does to the mailboxes. -/
theorem receiveMessage_spec (h : Valid s queued []) (target : Tid) (max tx : Nat) :
    ∃ out t queued', receiveMessage s target max tx =
        some ((receive (contents s) target max tx).1, out, t) ∧
      out.map toMessage = (receive (contents s) target max tx).2.1 ∧
      Valid t queued' [] ∧ contents t = (receive (contents s) target max tx).2.2 ∧
      s.blocks ⊆ t.blocks := by
  have hMissing : queueOf s target = {} →
      receive (contents s) target max tx = (.queueEmpty, none, contents s) := by
    intro hQueue
    simp [receive, h.contents_nil hQueue]
  cases hQueues : s.queues with
  | none =>
    have hQueue : queueOf s target = {} := by simp [queueOf, hQueues]
    rw [hMissing hQueue]
    exact ⟨none, s, queued, by simp [receiveMessage, hQueues], rfl, h, rfl, List.Subset.refl _⟩
  | some queues =>
    cases hGet : queues.get target with
    | none =>
      have hQueue : queueOf s target = {} := by simp [queueOf, hQueues, hGet]
      rw [hMissing hQueue]
      exact ⟨none, s, queued, by simp [receiveMessage, hQueues, hGet], rfl, h, rfl, List.Subset.refl _⟩
    | some queue =>
      have hQueue : queue = queueOf s target := by simp [queueOf, hQueues, hGet]
      have hFind : (contents s target).find? (wanted tx) =
          ((queued target).find? fun m => wanted tx (toMessage (s.memory m))).map
            fun m => toMessage (s.memory m) := by
        rw [h.contents_eq, find?_map]
        rfl
      simp only [receiveMessage, hQueues, hGet, receive, hFind]
      rw [hQueue, h.found_eq target tx]
      cases hFound : (queued target).find? fun m => wanted tx (toMessage (s.memory m)) with
      | none => exact ⟨none, s, queued, by simp, rfl, h, rfl, List.Subset.refl _⟩
      | some m =>
        obtain ⟨hWanted, before, after, hSplit, hBefore⟩ :=
          find?_eq_some_iff_append.mp hFound
        have hm : m ∈ queued target := by simp [hSplit]
        simp only [Option.getD_some, h.ne_zero hm, Option.map_some]
        have hLength : (toMessage (s.memory m)).length = (s.memory m).length := rfl
        rw [hLength]
        by_cases hMax : headerSize + (s.memory m).length > max
        · simp only [if_pos hMax]
          exact ⟨none, s, queued, rfl, rfl, h, rfl, List.Subset.refl _⟩
        · simp only [if_neg hMax]
          have hLe : (s.memory m).length ≤ (queueOf s target).total := by
            rw [(h.queue target).total, hSplit]
            simp
            omega
          have hSub : sub32 (queueOf s target).total (s.memory m).length =
              (queueOf s target).total - (s.memory m).length := by
            have hBounded := (h.queue target).bounded
            apply sub32_of_le hLe
            simp only [messageMaximumQueueContent, wordSize] at *
            omega
          obtain ⟨hValid, hFits, hContents⟩ := h.unlink hQueues hSplit rfl
          have hReleased := hValid.release hFits
          refine ⟨_, _, update queued target (before ++ after), rfl, ?_, ?_⟩
          · simp [toMessage, take_take]
          · have hTotal : (unlinkMessage s.memory (queueOf s target) m).2.total =
                (queueOf s target).total := rfl
            simp only [hTotal, hSub]
            rw [← release_withQueues]
            refine ⟨hReleased, ?_, by rw [(release_fields _ _).2.2]; exact List.Subset.refl _⟩
            rw [hReleased.contents_congr hValid (release_fields _ _).2.1, hContents,
              h.contents_eq target, hSplit, eraseP_split (by simpa using hBefore) hWanted]

/-- All messages of a thread are freed, and its queue is empty. -/
theorem clear_spec (h : Valid s queued []) (tid : Tid) :
    ∃ t queued', clear s tid = some t ∧ Valid t queued' [] ∧
      contents t = Mailboxes.clear (contents s) tid ∧ s.blocks ⊆ t.blocks := by
  have hMissing : queueOf s tid = {} → contents s = Mailboxes.clear (contents s) tid := by
    intro hQueue
    funext other
    by_cases hOther : other = tid
    · subst hOther
      simp [Mailboxes.clear, h.contents_nil hQueue]
    · simp [Mailboxes.clear, hOther]
  cases hQueues : s.queues with
  | none =>
    exact ⟨s, queued, by simp [clear, hQueues], h, hMissing (by simp [queueOf, hQueues]),
      List.Subset.refl _⟩
  | some queues =>
    cases hGet : queues.get tid with
    | none =>
      exact ⟨s, queued, by simp [clear, hQueues, hGet], h,
        hMissing (by simp [queueOf, hQueues, hGet]), List.Subset.refl _⟩
    | some queue =>
      have hQueue : queue = queueOf s tid := by simp [queueOf, hQueues, hGet]
      obtain ⟨hTarget, hOther⟩ : queueOf { s with queues := some (queues.erase tid) } tid = {} ∧
          ∀ other, other ≠ tid →
            queueOf { s with queues := some (queues.erase tid) } other = queueOf s other := by
        refine ⟨by simp [queueOf], fun other hNe => ?_⟩
        simp [queueOf, hQueues, HashMap.get_erase_of_ne queues (Ne.symm hNe)]
      have hSame : ∀ other, other ≠ tid → ∀ m ∈ queued other,
          ({ s with queues := some (queues.erase tid) } : State).memory m = s.memory m :=
        fun _ _ _ _ => rfl
      have hEmpty : QueueAt s.memory (queueOf { s with queues := some (queues.erase tid) } tid) [] := by
        rw [hTarget]
        exact ⟨.empty, rfl, Nat.zero_le _⟩
      have hPerm : (queued tid ++ []).Perm ([] ++ queued tid) := by simp
      obtain ⟨hDetached, hContents⟩ := @Valid.replaceQueue _ _ _ _ _
        { s with queues := some (queues.erase tid) } _ h hOther rfl rfl hSame hEmpty hPerm (by simp)
      obtain ⟨t, hRelease, hValid, hMemory, hBlocks⟩ := releaseAll_spec hDetached
        (h.queue tid).linked.forward (h.length_le tid) (h.fits tid)
      refine ⟨t, _, ?_, hValid, ?_, hBlocks ▸ List.Subset.refl _⟩
      · rw [releaseAll_withQueues] at hRelease
        simp only [clear, hQueues, hGet, hQueue]
        exact hRelease
      · rw [hValid.contents_congr hDetached hMemory, hContents]
        rfl

end Operations

end Kernel.MessageController
