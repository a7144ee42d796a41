import Mathlib.Order.WellFounded
import Mathlib.Tactic.Common

/-! Infinite runs of a labelled transition relation, and the rule by which something happens in
them: a measure never grows and goes down with every tick of a clock that ticks for ever. -/
namespace Base

/-- An infinite run: its states, the step taken from each, and a proof that
every state follows from the one before. -/
structure InfiniteRun {State Label : Type*} (step : State → Label → State → Prop) where
  states : Nat → State
  labels : Nat → Label
  steps : ∀ n, step (states n) (labels n) (states (n + 1))

variable {State Label : Type*} {step : State → Label → State → Prop}

theorem InfiniteRun.invariant (run : InfiniteRun step) {Inv : State → Prop}
    (hStart : Inv (run.states 0)) (hStep : ∀ s label t, Inv s → step s label t → Inv t) (n : Nat) :
    Inv (run.states n) := by
  induction n with
  | zero => exact hStart
  | succ n ih => exact hStep _ _ _ ih (run.steps n)

/-- A run is built by finding one step after the other. -/
theorem InfiniteRun.of_progress (Inv : Nat → State → Prop) (labels : Nat → Label) {start : State}
    (hStart : Inv 0 start)
    (hProgress : ∀ n s, Inv n s → ∃ t, step s (labels n) t ∧ Inv (n + 1) t) :
    ∃ run : InfiniteRun step, run.states 0 = start ∧ run.labels = labels ∧
      ∀ n, Inv n (run.states n) := by
  choose! next hStep hNext using hProgress
  let states : Nat → State := fun n => Nat.rec start next n
  have hInv : ∀ n, Inv n (states n) := by
    intro n
    induction n with
    | zero => exact hStart
    | succ n ih => exact hNext n (states n) ih
  exact ⟨⟨states, labels, fun n => hStep n (states n) (hInv n)⟩, rfl, rfl, hInv⟩

def InfinitelyOften (event : Nat → Prop) : Prop :=
  ∀ n, ∃ m, n ≤ m ∧ event m

/-- While `P` holds, every step either reaches `Q` or keeps `P` without raising
the measure, and a tick lowers it. If the clock ticks for ever then `P` leads
to `Q`. -/
theorem leadsTo_of_measure {α : Type*} [Preorder α] [WellFoundedLT α] (P : Nat → Prop)
    (measure : Nat → α) {tick Q : Nat → Prop} (hTicks : InfinitelyOften tick)
    (hStay : ∀ n, P n → ¬tick n → Q n ∨ P (n + 1) ∧ measure (n + 1) ≤ measure n)
    (hTick : ∀ n, P n → tick n → Q n ∨ P (n + 1) ∧ measure (n + 1) < measure n)
    {n : Nat} (hP : P n) : ∃ m, n ≤ m ∧ Q m := by
  have hStep : ∀ n, P n → Q n ∨ P (n + 1) ∧ measure (n + 1) ≤ measure n := by
    intro n hP
    by_cases hNow : tick n
    · exact (hTick n hP hNow).imp_right fun hNext => ⟨hNext.1, hNext.2.le⟩
    · exact hStay n hP hNow
  -- one tick ahead: either `Q` on the way or a smaller measure
  have hNextTick : ∀ distance n, P n → tick (n + distance) →
      (∃ m, n ≤ m ∧ Q m) ∨ ∃ m, n ≤ m ∧ P m ∧ measure m < measure n := by
    intro distance
    induction distance with
    | zero =>
      intro n hP hNow
      rcases hTick n hP hNow with hQ | ⟨hNext, hLess⟩
      · exact Or.inl ⟨n, le_refl n, hQ⟩
      · exact Or.inr ⟨n + 1, Nat.le_succ n, hNext, hLess⟩
    | succ distance ih =>
      intro n hP hLater
      rcases hStep n hP with hQ | ⟨hNext, hLe⟩
      · exact Or.inl ⟨n, le_refl n, hQ⟩
      · rw [Nat.add_comm distance, ← Nat.add_assoc] at hLater
        rcases ih (n + 1) hNext hLater with ⟨m, hm, hQ⟩ | ⟨m, hm, hPm, hLess⟩
        · exact Or.inl ⟨m, by omega, hQ⟩
        · exact Or.inr ⟨m, by omega, hPm, hLess.trans_le hLe⟩
  induction hBound : measure n using WellFoundedLT.induction generalizing n with
  | _ bound ih =>
    subst hBound
    obtain ⟨later, hLater, hNow⟩ := hTicks n
    obtain ⟨distance, rfl⟩ := Nat.exists_eq_add_of_le hLater
    rcases hNextTick distance n hP hNow with hQ | ⟨m, hm, hPm, hLess⟩
    · exact hQ
    · obtain ⟨reached, hReached, hQ⟩ := ih (measure m) hLess hPm rfl
      exact ⟨reached, by omega, hQ⟩

end Base
