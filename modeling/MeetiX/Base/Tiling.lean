import Mathlib.Algebra.Ring.Nat
import Mathlib.Order.Interval.Finset.Nat

/-! Intervals laid out one behind the other without gaps. Each element has a
first and a last position, and its last position is the first one of its
successor. -/
namespace Base

open Finset

variable {α : Type*}

/-- The elements cover the positions from `start` to `stop` in their order. -/
def Tiles (first last : α → Nat) : Nat → List α → Nat → Prop
  | start, [], stop => start = stop
  | start, x :: xs, stop => first x = start ∧ Tiles first last (last x) xs stop

section Facts

variable {first last : α → Nat} {start stop : Nat} {xs : List α}

section

variable (h : Tiles first last start xs stop) (hOrder : ∀ x ∈ xs, first x ≤ last x)

include h hOrder

/-- Elements that do not shrink to the left keep inside the tiled positions. -/
theorem Tiles.bounds : start ≤ stop ∧ ∀ x ∈ xs, start ≤ first x ∧ last x ≤ stop := by
  induction xs generalizing start with
  | nil => exact ⟨le_of_eq h, by simp⟩
  | cons x xs ih =>
    obtain ⟨hFirst, hRest⟩ := h
    obtain ⟨hStop, hBounds⟩ := ih hRest fun y hy => hOrder y (by simp [hy])
    have hx := hOrder x (by simp)
    refine ⟨by omega, List.forall_mem_cons.mpr ⟨by omega, ?_⟩⟩
    intro y hy
    obtain ⟨hy1, hy2⟩ := hBounds y hy
    omega

theorem Tiles.pairwise : xs.Pairwise fun x y => last x ≤ first y := by
  induction xs generalizing start with
  | nil => exact List.Pairwise.nil
  | cons x xs ih =>
    obtain ⟨-, hRest⟩ := h
    have hOrderRest : ∀ y ∈ xs, first y ≤ last y := fun y hy => hOrder y (by simp [hy])
    apply List.Pairwise.cons
    · intro y hy
      exact ((hRest.bounds hOrderRest).2 y hy).1
    · exact ih hRest hOrderRest

theorem Tiles.apart {x y : α} (hx : x ∈ xs) (hy : y ∈ xs) :
    x = y ∨ last x ≤ first y ∨ last y ≤ first x := by
  have hSymm : Std.Symm fun x y => last x ≤ first y ∨ last y ≤ first x := ⟨fun _ _ => Or.symm⟩
  have hPairs : xs.Pairwise fun x y => last x ≤ first y ∨ last y ≤ first x :=
    (h.pairwise hOrder).imp Or.inl
  by_cases hEq : x = y
  · exact .inl hEq
  · exact .inr (hPairs.forall hx hy hEq)

end

/-- Elements that lie apart from each other have no more positions than there are. -/
theorem sum_le_of_apart (hOrder : ∀ x ∈ xs, start ≤ first x ∧ last x ≤ stop)
    (hApart : xs.Pairwise fun x y => last x ≤ first y ∨ last y ≤ first x) :
    (xs.map fun x => last x - first x).sum ≤ stop - start := by
  classical
  -- the positions that belong to some element, counted once
  let covered (ys : List α) := {p ∈ Finset.Ico start stop | ∃ x ∈ ys, first x ≤ p ∧ p < last x}
  suffices hCard : (xs.map fun x => last x - first x).sum ≤ (covered xs).card by
    refine hCard.trans ((card_filter_le _ _).trans ?_)
    rw [Nat.card_Ico]
  induction xs with
  | nil => simp
  | cons x xs ih =>
    obtain ⟨hHead, hTail⟩ := List.pairwise_cons.mp hApart
    obtain ⟨⟨hLow, hHigh⟩, hRest⟩ := List.forall_mem_cons.mp hOrder
    have hDisjoint : Disjoint (Finset.Ico (first x) (last x)) (covered xs) := by
      rw [disjoint_left]
      intro p hp hCovered
      obtain ⟨-, y, hy, hFirst, hLast⟩ := mem_filter.mp hCovered
      have hPosition := mem_Ico.mp hp
      rcases hHead y hy with hBefore | hAfter <;> omega
    have hSubset : Finset.Ico (first x) (last x) ∪ covered xs ⊆ covered (x :: xs) := by
      intro p hp
      rcases mem_union.mp hp with hFirst | hCovered
      · have hPosition := mem_Ico.mp hFirst
        refine mem_filter.mpr ⟨mem_Ico.mpr (by omega), x, List.mem_cons_self, hPosition⟩
      · obtain ⟨hPosition, y, hy, hInside⟩ := mem_filter.mp hCovered
        exact mem_filter.mpr ⟨hPosition, y, List.mem_cons_of_mem x hy, hInside⟩
    have hCard := card_le_card hSubset
    rw [card_union_of_disjoint hDisjoint, Nat.card_Ico] at hCard
    have hSum := ih hRest hTail
    rw [List.map_cons, List.sum_cons]
    omega

end Facts

end Base
