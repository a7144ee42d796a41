import Mathlib.Tactic.Ring
import MeetiX.Base.Run
import MeetiX.Kernel.Types
import MeetiX.Userspace.ZipNet.Screen

/-! The canvas of a client, which paints into a buffer that the server shares with it. When the
canvas has to grow, the server makes a second buffer, tells the client about it and uses it as
soon as the client has acknowledged it. -/
namespace ZipNet

open Base Kernel

structure Dimension where
  width : Int
  height : Int
deriving DecidableEq

/-- The bounds that `setBounds` gives to a component. -/
def limitBounds (minimumSize : Dimension) (newBounds : Rectangle) : Rectangle :=
  { newBounds with
    width := if newBounds.width < minimumSize.width then minimumSize.width else newBounds.width
    height := if newBounds.height < minimumSize.height then minimumSize.height else newBounds.height }

/-- The size of `UiCanvasSharedMemoryHeader` is a parameter. A row of so many pixels takes four
times as many bytes. -/
def requiredSize (headerSize : Nat) (bounds : Rectangle) : Nat :=
  ((headerSize + bounds.height * 4 * bounds.width) % (wordSize : Nat)).toNat

/-- The number of pages is kept in 16 bits. -/
def requiredPages (headerSize : Nat) (bounds : Rectangle) : Nat :=
  pageAlignUp (requiredSize headerSize bounds) / pageSize % 0x10000

/-- The bytes behind the start of a buffer that the surface painted from it covers. -/
def surfaceSize (headerSize : Nat) (bounds : Rectangle) : Int :=
  headerSize + 4 * (bounds.width * bounds.height)

theorem requiredPages_of_small {headerSize size : Nat} {bounds : Rectangle}
    (hSize : surfaceSize headerSize bounds = size) (hSmall : size ≤ 65535 * pageSize) :
    size ≤ requiredPages headerSize bounds * pageSize := by
  have hLess : size ≤ 0xFFFF000 := hSmall
  clear hSmall
  have hRequired : requiredSize headerSize bounds = size := by
    have hProduct : bounds.height * 4 * bounds.width = 4 * (bounds.width * bounds.height) := by ring
    unfold surfaceSize at hSize
    unfold requiredSize
    rw [hProduct, hSize]
    unfold wordSize
    omega
  unfold requiredPages pageAlignUp pageAlignDown wrap32 wordSize pageSize
  rw [hRequired]
  split_ifs <;> omega

/-- The buffer made for a canvas is large enough for what is painted from it unless more than
65535 pages are needed. -/
theorem requiredPages_room_iff (headerSize : Nat) (request : Rectangle) :
    surfaceSize headerSize (limitBounds ⟨0, 0⟩ request) ≤
        (requiredPages headerSize (limitBounds ⟨0, 0⟩ request) * pageSize : Nat) ↔
      surfaceSize headerSize (limitBounds ⟨0, 0⟩ request) ≤ (65535 * pageSize : Nat) := by
  have hArea : 0 ≤ (limitBounds ⟨0, 0⟩ request).width * (limitBounds ⟨0, 0⟩ request).height := by
    apply Int.mul_nonneg <;> dsimp only [limitBounds] <;> split_ifs <;> omega
  obtain ⟨size, hSize⟩ : ∃ size : Nat, surfaceSize headerSize (limitBounds ⟨0, 0⟩ request) = size :=
    Int.eq_ofNat_of_zero_le (by unfold surfaceSize; omega)
  rw [hSize, Int.ofNat_le, Int.ofNat_le]
  constructor
  · intro hRoom
    refine hRoom.trans (Nat.mul_le_mul_right _ (Nat.le_of_lt_succ ?_))
    exact Nat.mod_lt _ (by decide)
  · exact requiredPages_of_small hSize

/-- A canvas of 8192 pixels in each direction gets a single page. -/
theorem requiredPages_large : requiredPages 24 (limitBounds ⟨0, 0⟩ ⟨0, 0, 8192, 8192⟩) = 1 ∧
      ¬surfaceSize 24 (limitBounds ⟨0, 0⟩ ⟨0, 0, 8192, 8192⟩) ≤ (1 * pageSize : Nat) := by
  decide

/-- Buffers are numbered in the order in which they are allocated. The number stands for the
address of the mapping in the server and for that in the client. -/
structure BufferInfo where
  localMapping : Option Nat
  remoteMapping : Option Nat
  pages : Nat
  acknowledged : Bool
deriving DecidableEq

/-- A canvas with what is around it: the mapped buffers, the events that the client has not
received, its answers that the server has not received, and those it has. A message stands for the
address in the event. -/
structure Canvas where
  bounds : Rectangle
  currentBuffer : BufferInfo
  nextBuffer : BufferInfo
  mustCheckAgain : Bool
  hasListener : Bool
  buffers : Nat
  mapped : List Nat
  events : List (Option Nat)
  answers : List (Option Nat)
  acknowledged : List (Option Nat)
deriving DecidableEq

/-- What is not decided by the server: whether there is memory, whether it can be shared, and what
the header of the current buffer says, which the client can write to. -/
structure Outside where
  allocMem : Bool
  shareMem : Bool
  paintable : Dimension
deriving DecidableEq

namespace Canvas

def requestClientToAcknowledgeNewBuffer (c : Canvas) : Canvas :=
  if c.hasListener then { c with events := c.events ++ [c.nextBuffer.remoteMapping] } else c

/-- A buffer that cannot be shared is unmapped, but its address is kept. -/
def createNewBuffer (requiredPages : Nat) (o : Outside) (c : Canvas) : Canvas :=
  if o.allocMem then
    if o.shareMem then
      requestClientToAcknowledgeNewBuffer
        { c with nextBuffer := ⟨some c.buffers, some c.buffers, requiredPages, false⟩
                 buffers := c.buffers + 1, mapped := c.buffers :: c.mapped }
    else
      { c with nextBuffer := ⟨some c.buffers, none, requiredPages, false⟩, buffers := c.buffers + 1 }
  else
    { c with nextBuffer := { c.nextBuffer with
        localMapping := none, pages := requiredPages, acknowledged := false } }

def checkBuffer (headerSize : Nat) (o : Outside) (c : Canvas) : Canvas :=
  let requiredPages := requiredPages headerSize c.bounds
  if c.nextBuffer.localMapping ≠ none ∧ c.nextBuffer.acknowledged = false then
    requestClientToAcknowledgeNewBuffer { c with mustCheckAgain := true }
  else if c.currentBuffer.localMapping = none ∨
      (c.currentBuffer.acknowledged ∧ c.currentBuffer.pages < requiredPages) then
    createNewBuffer requiredPages o c
  else if c.currentBuffer.acknowledged ∧
      (o.paintable.width < c.bounds.width ∨ o.paintable.height < c.bounds.height) then
    createNewBuffer requiredPages o c
  else c

def setBounds (headerSize : Nat) (newBounds : Rectangle) (o : Outside) (c : Canvas) : Canvas :=
  let bounds := limitBounds ⟨0, 0⟩ newBounds
  if c.bounds.width ≠ bounds.width ∨ c.bounds.height ≠ bounds.height then
    checkBuffer headerSize o { c with bounds := bounds }
  else { c with bounds := bounds }

def unmap (buffer : Option Nat) (c : Canvas) : Canvas :=
  { c with mapped := c.mapped.filter (some · ≠ buffer) }

def clientHasAcknowledgedCurrentBuffer (headerSize : Nat) (o : Outside) (c : Canvas) : Canvas :=
  let taken := { c.unmap c.currentBuffer.localMapping with
    currentBuffer := { c.nextBuffer with acknowledged := true }
    nextBuffer := { c.nextBuffer with localMapping := none } }
  if c.mustCheckAgain then checkBuffer headerSize o { taken with mustCheckAgain := false }
  else taken

/-- The buffer that `paint` paints from. -/
def painted (c : Canvas) : Option Nat :=
  if c.currentBuffer.acknowledged then c.currentBuffer.localMapping else none

def new : Canvas where
  bounds := ⟨0, 0, 0, 0⟩
  currentBuffer := ⟨none, none, 0, false⟩
  nextBuffer := ⟨none, none, 0, false⟩
  mustCheckAgain := false
  hasListener := false
  buffers := 0
  mapped := []
  events := []
  answers := []
  acknowledged := []

/-- The client answers the event that it has received first. -/
inductive Event where
  | setListener
  | setBounds (newBounds : Rectangle) (o : Outside)
  | answer
  | acknowledge (o : Outside)
deriving DecidableEq

def execute (headerSize : Nat) (c : Canvas) : Event → Option Canvas
  | .setListener => some { c with hasListener := true }
  | .setBounds newBounds o => some (c.setBounds headerSize newBounds o)
  | .answer => match c.events with
    | [] => none
    | event :: events => some { c with events := events, answers := c.answers ++ [event] }
  | .acknowledge o => match c.answers with
    | [] => none
    | answer :: answers => some (clientHasAcknowledgedCurrentBuffer headerSize o
        { c with answers := answers, acknowledged := c.acknowledged ++ [answer] })

/-- A step that changes the bounds only while no buffer waits to be acknowledged. -/
structure CalmStep (headerSize : Nat) (c : Canvas) (event : Event) (d : Canvas) : Prop where
  execute : execute headerSize c event = some d
  calm : ∀ newBounds o, event = .setBounds newBounds o → c.nextBuffer.localMapping = none

/-- At most one message is under way, and it is about the buffer that waits. -/
structure Orderly (c : Canvas) : Prop where
  mustCheckAgain : c.mustCheckAgain = false
  pending : c.events ++ c.answers = [] ∨ ∃ b, c.events ++ c.answers = [some b] ∧
    c.nextBuffer.localMapping = some b ∧ b ∈ c.mapped
  apart : ∀ b, c.currentBuffer.localMapping = some b → c.nextBuffer.localMapping ≠ some b
  old : ∀ b, c.currentBuffer.localMapping = some b → b < c.buffers
  next_old : ∀ b, c.nextBuffer.localMapping = some b → b < c.buffers
  current : ∀ b, c.painted = some b → some b ∈ c.acknowledged ∧ b ∈ c.mapped

variable {headerSize : Nat} {c d : Canvas}

section

variable (h : Orderly c) (hNext : c.nextBuffer.localMapping = none)

include h hNext

theorem Orderly.events_eq_nil : c.events ++ c.answers = [] := by
  rcases h.pending with hNone | ⟨b, -, hSome, -⟩
  · exact hNone
  · rw [hNext] at hSome
    cases hSome

theorem Orderly.createNewBuffer
    (pages : Nat) (o : Outside) : Orderly (c.createNewBuffer pages o) := by
  have hEvents := h.events_eq_nil hNext
  have hNew : ∀ b, c.currentBuffer.localMapping = some b → some c.buffers ≠ some b := by
    rintro b hb ⟨⟩
    exact absurd (h.old _ hb) (lt_irrefl _)
  have hMapped : ∀ b, c.painted = some b → some b ∈ c.acknowledged ∧ b ∈ c.buffers :: c.mapped :=
    fun b hb => ⟨(h.current b hb).1, List.mem_cons_of_mem _ (h.current b hb).2⟩
  have hOld : ∀ b, c.currentBuffer.localMapping = some b → b < c.buffers + 1 :=
    fun b hb => Nat.lt_succ_of_lt (h.old b hb)
  unfold Canvas.createNewBuffer requestClientToAcknowledgeNewBuffer
  split_ifs with hAlloc hShare hListener
  · rw [List.append_eq_nil_iff] at hEvents
    refine ⟨h.mustCheckAgain, .inr ⟨c.buffers, ?_, rfl, by simp⟩, hNew, hOld, ?_, hMapped⟩
    · simp [hEvents]
    · rintro b ⟨⟩
      exact Nat.lt_succ_self _
  · refine ⟨h.mustCheckAgain, .inl hEvents, hNew, hOld, ?_, hMapped⟩
    rintro b ⟨⟩
    exact Nat.lt_succ_self _
  · refine ⟨h.mustCheckAgain, .inl hEvents, hNew, hOld, ?_, h.current⟩
    rintro b ⟨⟩
    exact Nat.lt_succ_self _
  · exact ⟨h.mustCheckAgain, .inl hEvents, nofun, h.old, nofun, h.current⟩

theorem Orderly.checkBuffer (o : Outside) : Orderly (c.checkBuffer headerSize o) := by
  unfold Canvas.checkBuffer
  rw [if_neg fun hPending => hPending.1 hNext]
  split_ifs
  · exact h.createNewBuffer hNext _ o
  · exact h.createNewBuffer hNext _ o
  · exact h

end

/-- The acknowledged buffer is the one that the client was told about. -/
theorem Orderly.acknowledge (h : Orderly c) {o : Outside}
    (hStep : execute headerSize c (.acknowledge o) = some d) : Orderly d ∧ d.painted.isSome := by
  unfold Canvas.execute at hStep
  cases hAnswers : c.answers with
  | nil =>
    rw [hAnswers] at hStep
    cases hStep
  | cons answer answers =>
    rcases h.pending with hNone | ⟨b, hOne, hLocal, hMapped⟩
    · simp [hAnswers] at hNone
    have hNoEvents : c.events = [] ∧ answer = some b ∧ answers = [] := by
      rw [hAnswers] at hOne
      rcases List.append_eq_singleton_iff.mp hOne with ⟨hEvents, hCons⟩ | ⟨-, hCons⟩
      · cases hCons
        exact ⟨hEvents, rfl, rfl⟩
      · cases hCons
    obtain ⟨hEvents, rfl, rfl⟩ := hNoEvents
    rw [hAnswers] at hStep
    dsimp only [clientHasAcknowledgedCurrentBuffer, unmap] at hStep
    rw [h.mustCheckAgain, if_neg Bool.false_ne_true] at hStep
    cases hStep
    refine ⟨⟨rfl, .inl (by simp [hEvents]), nofun, h.next_old, nofun, ?_⟩, ?_⟩
    · intro a ha
      obtain rfl : b = a := Option.some.inj (hLocal.symm.trans ha)
      refine ⟨by simp, List.mem_filter.mpr ⟨hMapped, ?_⟩⟩
      simp only [ne_eq, decide_eq_true_eq]
      exact fun hSame => h.apart b hSame.symm hLocal
    · change c.nextBuffer.localMapping.isSome
      rw [hLocal]
      rfl

/-- The step lemma, one case for each event. -/
theorem CalmStep.orderly {event : Event} (hStep : CalmStep headerSize c event d) (h : Orderly c) :
    Orderly d := by
  obtain ⟨hExecute, hCalm⟩ := hStep
  cases event with
  | setListener =>
    cases hExecute
    exact ⟨h.mustCheckAgain, h.pending, h.apart, h.old, h.next_old, h.current⟩
  | setBounds newBounds o =>
    cases hExecute
    have hBounds : Orderly { c with bounds := limitBounds ⟨0, 0⟩ newBounds } :=
      ⟨h.mustCheckAgain, h.pending, h.apart, h.old, h.next_old, h.current⟩
    unfold Canvas.setBounds
    dsimp only
    split_ifs
    · exact hBounds.checkBuffer (hCalm newBounds o rfl) o
    · exact hBounds
  | answer =>
    unfold Canvas.execute at hExecute
    cases hEvents : c.events with
    | nil =>
      rw [hEvents] at hExecute
      cases hExecute
    | cons event events =>
      rw [hEvents] at hExecute
      cases hExecute
      refine ⟨h.mustCheckAgain, ?_, h.apart, h.old, h.next_old, h.current⟩
      rcases h.pending with hNone | ⟨b, hOne, hNext⟩
      · simp [hEvents] at hNone
      · refine .inr ⟨b, ?_, hNext⟩
        rw [hEvents, List.cons_append, List.cons.injEq, List.append_eq_nil_iff] at hOne
        simp [hOne]
  | acknowledge o => exact (h.acknowledge hExecute).1

/-- While the bounds only change when no buffer waits, the server paints from buffers that are
mapped and that the client has acknowledged, and there is one after each acknowledgement. -/
theorem painted_acknowledged {events : List Event} (run : Run (CalmStep headerSize) new events c) :
    (∀ b, c.painted = some b → some b ∈ c.acknowledged ∧ b ∈ c.mapped) ∧
    ∀ o d, execute headerSize c (.acknowledge o) = some d → d.painted.isSome := by
  have hOrderly : Orderly c := by
    refine run.invariant ?_ fun _ _ _ h hStep => hStep.orderly h
    exact ⟨rfl, .inl rfl, nofun, nofun, nofun, nofun⟩
  exact ⟨hOrderly.current, fun o d hStep => (hOrderly.acknowledge hStep).2⟩

def plenty : Outside := ⟨true, true, ⟨20, 20⟩⟩

/-- A canvas grows once, -/
def growsOnce : List Event :=
  [.setListener, .setBounds ⟨0, 0, 20, 20⟩ plenty, .answer, .acknowledge plenty]

/-- or its bounds change again while the first buffer waits. -/
def changesAgain : List Event :=
  [.setListener, .setBounds ⟨0, 0, 20, 20⟩ plenty, .setBounds ⟨0, 0, 10, 10⟩ plenty, .answer, .answer,
    .acknowledge plenty]

theorem painted_acknowledged_first : (replay (execute 24) new growsOnce).painted = some 0 ∧
      some 0 ∈ (replay (execute 24) new growsOnce).acknowledged := by
  have hPainted : (replay (execute 24) new growsOnce).painted = some 0 := by decide
  have hRun : Run (CalmStep 24) new growsOnce (replay (execute 24) new growsOnce) := by
    refine .snoc (.snoc (.snoc (.snoc (.nil _) ⟨rfl, nofun⟩) ⟨rfl, fun _ _ _ => rfl⟩)
      ⟨rfl, nofun⟩) ⟨rfl, nofun⟩
  exact ⟨hPainted, ((painted_acknowledged hRun).1 0 hPainted).1⟩

/-- Then the client is told twice and answers twice. With the second answer the canvas loses its
buffer. -/
theorem painted_lost : (replay (execute 24) new changesAgain).painted = some 0 ∧
    execute 24 (replay (execute 24) new changesAgain) (.acknowledge plenty) =
      some (replay (execute 24) new (changesAgain ++ [.acknowledge plenty])) ∧
    (replay (execute 24) new (changesAgain ++ [.acknowledge plenty])).painted = none := by
  decide

end Canvas

end ZipNet
