import Mathlib.Data.List.Basic

/-! `AddressStack`: addresses on a stack of frames of fixed size. A frame is the list of its
entries, the topmost one first; the frames below the current one are full. -/
namespace Kernel

def addressStackFrameEntries : Nat := 128

structure AddressStack where
  /-- The current frame first; no frame before the first push. -/
  frames : List (List Nat)
  room : ∀ frame ∈ frames.head?, frame.length < addressStackFrameEntries
  full : ∀ frame ∈ frames.tail, frame.length = addressStackFrameEntries

namespace AddressStack

def empty : AddressStack := ⟨[], by simp, by simp⟩

/-- Put an address on the current frame and open a new frame when it is full. -/
def pushFrames (address : Nat) (current : List Nat) (previous : List (List Nat)) :
    List (List Nat) :=
  if current.length + 1 = addressStackFrameEntries then [] :: (address :: current) :: previous
  else (address :: current) :: previous

/-- Take the topmost address. At the foot of a frame the frame below becomes
the current one. The answer is 0 when there is no address. -/
def popFrames : List (List Nat) → Nat × List (List Nat)
  | [] => (0, [])
  | (address :: current) :: previous => (address, current :: previous)
  | [] :: (address :: current) :: previous => (address, current :: previous)
  | frames => (0, frames)

variable (stack : AddressStack)

def push (address : Nat) : AddressStack where
  frames := pushFrames address (stack.frames.headD []) stack.frames.tail
  room := by
    unfold pushFrames
    split
    · simp [addressStackFrameEntries]
    · rename_i h
      have hRoom := stack.room
      cases hFrames : stack.frames with
      | nil => simp [addressStackFrameEntries]
      | cons current previous =>
        simp only [hFrames, List.head?_cons, Option.mem_def, Option.some.injEq, forall_eq',
          List.headD_cons, List.length_cons] at hRoom h ⊢
        omega
  full := by
    unfold pushFrames
    have hFull := stack.full
    split
    · rename_i h
      intro frame hFrame
      rcases List.mem_cons.mp hFrame with rfl | hFrame
      · simpa using h
      · exact hFull frame hFrame
    · exact hFull

def pop : Nat × AddressStack :=
  ((popFrames stack.frames).1,
    { frames := (popFrames stack.frames).2
      room := by
        have hRoom := stack.room
        have hFull := stack.full
        unfold popFrames
        split <;> simp_all <;> omega
      full := by
        have hFull := stack.full
        unfold popFrames
        split <;> simp_all })

def contents : List Nat := stack.frames.flatten

@[simp] theorem contents_empty : empty.contents = [] := rfl

theorem flatten_pushFrames (address : Nat) (frames : List (List Nat)) :
    (pushFrames address (frames.headD []) frames.tail).flatten = address :: frames.flatten := by
  cases frames with
  | nil => simp [pushFrames, addressStackFrameEntries]
  | cons current previous =>
    by_cases h : current.length + 1 = addressStackFrameEntries <;> simp [pushFrames, h]

/-- With full frames below the current one, only an empty stack answers 0. -/
theorem flatten_popFrames {frames : List (List Nat)}
    (hFull : ∀ frame ∈ frames.tail, frame.length = addressStackFrameEntries) :
    frames.flatten = [] ∧ (popFrames frames).1 = 0 ∧ (popFrames frames).2.flatten = [] ∨
      frames.flatten = (popFrames frames).1 :: (popFrames frames).2.flatten := by
  match frames with
  | [] => simp [popFrames]
  | (address :: current) :: previous => simp [popFrames]
  | [[]] => simp [popFrames]
  | [] :: (address :: current) :: previous => simp [popFrames]
  | [] :: [] :: previous => simp [addressStackFrameEntries] at hFull

@[simp] theorem contents_push (address : Nat) :
    (stack.push address).contents = address :: stack.contents :=
  flatten_pushFrames address stack.frames

theorem pop_of_contents_nil {stack : AddressStack} (h : stack.contents = []) :
    stack.pop.1 = 0 ∧ stack.pop.2.contents = [] := by
  rcases flatten_popFrames stack.full with ⟨-, hPop⟩ | hPop
  · exact hPop
  · exact absurd (hPop.symm.trans h) (by simp)

theorem pop_of_contents_cons {stack : AddressStack} {address : Nat} {rest : List Nat}
    (h : stack.contents = address :: rest) :
    stack.pop.1 = address ∧ stack.pop.2.contents = rest := by
  rcases flatten_popFrames stack.full with ⟨hNil, -⟩ | hPop
  · exact absurd (hNil.symm.trans h) (by simp)
  · exact List.cons.inj (hPop.symm.trans h)

end AddressStack

end Kernel
