import Mathlib.Data.List.Nodup
import Mathlib.Data.List.Perm.Basic

/-! Items kept in several places, each in at most one of them and there only
once. Two places may exchange items; the order of the items inside a place does
not matter. -/
namespace Base

/-- No item is held twice, neither in one place nor in two. -/
structure Exclusive {Place Item : Type*} (held : Place → List Item) : Prop where
  nodup : ∀ place, (held place).Nodup
  apart : ∀ {place other : Place}, place ≠ other → ∀ item ∈ held place, item ∉ held other

namespace Exclusive

variable {Place Item : Type*} {held held' : Place → List Item} {place other : Place} {item : Item}

/-- An item that is in two places makes them one place. -/
theorem place_eq (h : Exclusive held) (hPlace : item ∈ held place) (hOther : item ∈ held other) :
    place = other := by
  by_contra hNe
  exact h.apart hNe item hPlace hOther

/-- What two places have together is distributed anew. -/
theorem exchange (h : Exclusive held) (hNe : place ≠ other)
    (hPerm : (held' place ++ held' other).Perm (held place ++ held other))
    (hRest : ∀ p, p ≠ place → p ≠ other → held' p = held p) : Exclusive held' := by
  have hNodup : (held' place ++ held' other).Nodup := by
    rw [hPerm.nodup_iff, List.nodup_append]
    refine ⟨h.nodup place, h.nodup other, fun x hx y hy hxy => ?_⟩
    exact h.apart hNe x hx (hxy ▸ hy)
  obtain ⟨hPlace, hOther, hApart⟩ := List.nodup_append.mp hNodup
  -- an item of the two places is in no third one
  have hThird : ∀ p q, p = place ∨ p = other → ¬(q = place ∨ q = other) → ∀ x ∈ held' p,
      x ∉ held' q := by
    intro p q hp hq x hx hx'
    rw [not_or] at hq
    rw [hRest q hq.1 hq.2] at hx'
    have hMem : x ∈ held' place ++ held' other := by
      rcases hp with rfl | rfl <;> simp [hx]
    rw [hPerm.mem_iff, List.mem_append] at hMem
    exact hMem.elim (h.apart hq.1 x hx') (h.apart hq.2 x hx')
  refine ⟨fun p => ?_, fun {p q} hpq x hx hx' => ?_⟩
  · by_cases hp : p = place
    · exact hp ▸ hPlace
    · by_cases hp' : p = other
      · exact hp' ▸ hOther
      · exact hRest p hp hp' ▸ h.nodup p
  · by_cases hp : p = place ∨ p = other
    · by_cases hq : q = place ∨ q = other
      · rcases hp with rfl | rfl <;> rcases hq with rfl | rfl
        · exact hpq rfl
        · exact hApart x hx x hx' rfl
        · exact hApart x hx' x hx rfl
        · exact hpq rfl
      · exact hThird p q hp hq x hx hx'
    · by_cases hq : q = place ∨ q = other
      · exact hThird q p hq hp x hx' hx
      · rw [not_or] at hp hq
        rw [hRest p hp.1 hp.2] at hx
        rw [hRest q hq.1 hq.2] at hx'
        exact h.apart hpq x hx hx'

/-- Nothing gets lost in this way. -/
theorem exists_mem_exchange (hPerm : (held' place ++ held' other).Perm (held place ++ held other))
    (hRest : ∀ p, p ≠ place → p ≠ other → held' p = held p) (h : ∃ p, item ∈ held p) :
    ∃ p, item ∈ held' p := by
  obtain ⟨p, hItem⟩ := h
  by_cases hp : p = place ∨ p = other
  · have hMem : item ∈ held' place ++ held' other := by
      rw [hPerm.mem_iff]
      rcases hp with rfl | rfl <;> simp [hItem]
    exact (List.mem_append.mp hMem).elim (⟨_, ·⟩) (⟨_, ·⟩)
  · rw [not_or] at hp
    exact ⟨p, hRest p hp.1 hp.2 ▸ hItem⟩

end Exclusive

end Base
