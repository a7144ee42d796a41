import Mathlib.Algebra.Order.Ring.Int
import Mathlib.Data.UInt
import Mathlib.Tactic.Ring

/-! Scrolling on the screen in text mode. Lines are copied one by one in the video memory, which
goes on in front of the screen and behind it. -/
namespace CandyTerminal

open Function

/-- The 80 characters of a line, each with its color. -/
abbrev Line := Fin 160 → UInt8

structure HeadlessScreen where
  /-- The video memory from the first line of the screen on. -/
  output : Int → Line
  scrollAreaScreen : Bool
  scrollAreaStart : Int
  scrollAreaEnd : Int

/-- The offset of the line in bytes is an `int`. -/
def Addressable (line : Int) : Prop := -2 ^ 31 ≤ line * 160 ∧ line * 160 < 2 ^ 31

instance (line : Int) : Decidable (Addressable line) := inferInstanceAs (Decidable (_ ∧ _))

def copyLine (target source : Int) (output : Int → Line) : Option (Int → Line) :=
  if Addressable target ∧ Addressable source then some (update output target (output source))
  else none

/-- The loop of `scroll` from the end of the area to its start, over so many lines. -/
def copyDown (value start : Int) : Nat → (Int → Line) → Option (Int → Line)
  | 0, output => some output
  | n + 1, output => (copyLine (start + n + value) (start + n) output).bind (copyDown value start n)

/-- The loop of `scroll` from the start of the area to its end. -/
def copyUp (value stop : Int) : Nat → (Int → Line) → Option (Int → Line)
  | 0, output => some output
  | n + 1, output =>
    (copyLine (stop - (n + 1)) (stop - (n + 1) + value) output).bind (copyUp value stop n)

namespace HeadlessScreen

def scrollStart (s : HeadlessScreen) : Int := if s.scrollAreaScreen then 0 else s.scrollAreaStart

def scrollEnd (s : HeadlessScreen) : Int := if s.scrollAreaScreen then 25 else s.scrollAreaEnd

def scroll (s : HeadlessScreen) (value : Int) : Option HeadlessScreen :=
  (if value > 0 then copyDown value s.scrollStart (s.scrollEnd - 1 - s.scrollStart).toNat s.output
    else copyUp value s.scrollEnd (s.scrollEnd - s.scrollStart).toNat s.output).map
    fun output => { s with output := output }

/-- What is asked of scrolling: lines that stay in the area move, and lines outside stay. -/
structure Scrolls (start stop value : Int) (before after : Int → Line) : Prop where
  moves : ∀ i, start ≤ i → i < stop → start ≤ i + value → i + value < stop →
    after (i + value) = before i
  stays : ∀ i, i < start ∨ stop ≤ i → after i = before i

end HeadlessScreen

section Loops

variable {value start stop : Int} {n : Nat} {output after : Int → Line}

theorem copyLine_eq_some {target source : Int} (h : copyLine target source output = some after) :
    after = update output target (output source) :=
  (Option.some.inj (Option.ite_none_right_eq_some.mp h).2).symm

theorem copyDown_eq (hValue : 0 < value) (h : copyDown value start n output = some after) (k : Int) :
    after k =
      if start + value ≤ k ∧ k < start + n + value then output (k - value) else output k := by
  induction n generalizing output with
  | zero =>
    cases h
    rw [if_neg (by omega)]
  | succ n ih =>
    obtain ⟨middle, hCopy, h⟩ := Option.bind_eq_some_iff.mp h
    obtain rfl := copyLine_eq_some hCopy
    rw [ih h, Nat.cast_succ]
    by_cases hIn : start + value ≤ k ∧ k < start + n + value
    · rw [if_pos hIn, if_pos (by omega), update_of_ne (by omega)]
    · rw [if_neg hIn]
      by_cases hLast : k = start + n + value
      · rw [if_pos (by omega), hLast, update_self, add_sub_cancel_right]
      · rw [if_neg (by omega), update_of_ne hLast]

/-- The first line that is written gets its content from before the loop. -/
theorem copyUp_spec (h : copyUp value stop n output = some after) :
    (∀ k, k < stop - n ∨ stop ≤ k → after k = output k) ∧
      (0 < n → after (stop - n) = output (stop - n + value)) ∧ (value = 0 → after = output) := by
  induction n generalizing output with
  | zero =>
    cases h
    exact ⟨fun _ _ => rfl, fun hPos => absurd hPos (lt_irrefl 0), fun _ => rfl⟩
  | succ n ih =>
    obtain ⟨middle, hCopy, h⟩ := Option.bind_eq_some_iff.mp h
    obtain rfl := copyLine_eq_some hCopy
    obtain ⟨hFrame, -, hZero⟩ := ih h
    refine ⟨fun k hk => ?_, fun _ => ?_, fun hValue => ?_⟩
    · rw [hFrame k (by omega), update_of_ne (by omega)]
    · rw [Nat.cast_succ, hFrame _ (by omega), update_self]
    · rw [hZero hValue, hValue, add_zero, update_eq_self]

theorem exists_copyDown (h : n = 0 ∨ value = 1 ∧ 0 ≤ start ∧ start + n ≤ 25)
    (output : Int → Line) : ∃ after, copyDown value start n output = some after := by
  induction n generalizing output with
  | zero => exact ⟨output, rfl⟩
  | succ n ih =>
    rw [copyDown, copyLine, if_pos (by unfold Addressable; omega)]
    exact ih (by omega) _

/-- Every line that is read and written has to be addressable. -/
theorem exists_copyUp_iff (hStop : stop ≤ 25) (hFirst : 0 ≤ stop - n) (hValue : value ≤ 0)
    (output : Int → Line) :
    (∃ after, copyUp value stop n output = some after) ↔ 0 < n → Addressable (stop - n + value) := by
  induction n generalizing output with
  | zero => exact ⟨fun _ hPos => absurd hPos (lt_irrefl 0), fun _ => ⟨output, rfl⟩⟩
  | succ n ih =>
    rw [copyUp, copyLine, Nat.cast_succ, imp_iff_right (Nat.succ_pos n)]
    by_cases hLine : Addressable (stop - (n + 1) + value)
    · rw [if_pos ⟨by unfold Addressable; omega, hLine⟩, Option.bind_some, ih (by omega)]
      exact iff_of_true (fun _ => by unfold Addressable at *; omega) hLine
    · rw [if_neg fun hBoth => hLine hBoth.2]
      exact iff_of_false (fun h => Option.some_ne_none _ h.choose_spec.symm) hLine

open HeadlessScreen (Scrolls)

/-- The contents of the memory with all lines of one kind in front of the bound. -/
def split (bound i : Int) : Line := if i < bound then 0 else 1

theorem eq_of_split {bound i k : Int} (h : split bound i = split bound k) :
    i < bound ↔ k < bound := by
  unfold split at h
  split_ifs at h with hi hk hk
  · exact iff_of_true hi hk
  · exact absurd (congrFun h 0) (by decide)
  · exact absurd (congrFun h 0) (by decide)
  · exact iff_of_false hi hk

section Area

variable (hStart : 0 ≤ start) (hEnd : stop ≤ 25)
include hStart hEnd

theorem copyDown_scrolls_iff (hValue : 0 < value) :
    (∀ output, ∃ after, copyDown value start (stop - 1 - start).toNat output = some after ∧
      Scrolls start stop value output after) ↔ value = 1 ∨ stop ≤ start + 1 := by
  constructor
  · intro h
    by_contra hNot
    obtain ⟨after, hCopy, hDone⟩ := h (split stop)
    -- The last line but one is copied first, behind the area.
    have hOut := hDone.stays (stop - 2 + value) (by omega)
    rw [copyDown_eq hValue hCopy, if_pos (by omega)] at hOut
    have := eq_of_split hOut
    omega
  · intro h output
    obtain ⟨after, hCopy⟩ := exists_copyDown
      (show _ = 0 ∨ value = 1 ∧ 0 ≤ start ∧ start + (stop - 1 - start).toNat ≤ 25 by omega) output
    refine ⟨after, hCopy, fun i hi hiEnd _ hInside => ?_, fun i hi => ?_⟩
    · rw [copyDown_eq hValue hCopy, if_pos (by omega), add_sub_cancel_right]
    · rw [copyDown_eq hValue hCopy, if_neg (by omega)]

theorem copyUp_scrolls_iff (hValue : value ≤ 0) :
    (∀ output, ∃ after, copyUp value stop (stop - start).toNat output = some after ∧
      Scrolls start stop value output after) ↔ value = 0 ∨ stop ≤ start ∨
        stop - start ≤ -value ∧ Addressable (start + value) := by
  by_cases hArea : stop ≤ start
  · rw [show (stop - start).toNat = 0 by omega]
    exact iff_of_true (fun output => ⟨output, rfl, fun i hi hiEnd => by omega, fun _ _ => rfl⟩)
      (Or.inr (Or.inl hArea))
  have hCast : stop - ((stop - start).toNat : Int) = start := by omega
  have hPos : 0 < (stop - start).toNat := by omega
  have hIff := exists_copyUp_iff (n := (stop - start).toNat) hEnd (hCast.symm ▸ hStart) hValue
  rw [hCast, imp_iff_right hPos] at hIff
  constructor
  · intro h
    obtain ⟨after, hCopy, hDone⟩ := h (split start)
    refine or_iff_not_imp_left.mpr fun hZero => Or.inr ⟨?_, (hIff _).mp ⟨after, hCopy⟩⟩
    by_contra hNot
    -- The first line gets a line from in front of the area instead of one of the area.
    have hIn := hDone.moves (start - value) (by omega) (by omega) (by omega) (by omega)
    have hFirst := (copyUp_spec hCopy).2.1 hPos
    rw [hCast] at hFirst
    rw [sub_add_cancel, hFirst] at hIn
    have := eq_of_split hIn
    omega
  · intro h output
    obtain ⟨after, hCopy⟩ := (hIff output).mpr
      (h.elim (fun hZero => by unfold Addressable; omega) fun h => (h.resolve_left hArea).2)
    obtain ⟨hFrame, -, hSame⟩ := copyUp_spec hCopy
    refine ⟨after, hCopy, fun i hi hiEnd hInside _ => ?_, fun i hi => hFrame i (by omega)⟩
    have hZero : value = 0 := by omega
    rw [hSame hZero, hZero, add_zero]

end Area

end Loops

end CandyTerminal
