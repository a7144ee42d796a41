import Mathlib

/-! Resources that are shared by places, with a count for each. A place refers to at most one
resource. The counts are right when a resource is counted as often as it is referred to and is not
free while it is; it should become free just when the last place gives it up. -/
namespace Base

open Function

/-- Places with the resources they refer to, and what is known of the resources. -/
structure Sharing (Place Resource : Type*) where
  places : Finset Place
  target : Place → Option Resource
  count : Resource → Int
  free : Resource → Prop

namespace Sharing

variable {Place Resource : Type*} [DecidableEq Resource]
variable {S T U : Sharing Place Resource} {x : Place} {r old new : Resource}

def holders (S : Sharing Place Resource) (r : Resource) : Finset Place :=
  S.places.filter fun x => S.target x = some r

def sharers (S : Sharing Place Resource) (r : Resource) : Nat :=
  (S.holders r).card

structure Counted (S : Sharing Place Resource) : Prop where
  shared : ∀ r, 0 < S.sharers r → S.count r = S.sharers r ∧ ¬S.free r
  unused : ∀ r, S.free r → S.count r = 0

theorem mem_holders : x ∈ S.holders r ↔ x ∈ S.places ∧ S.target x = some r :=
  Finset.mem_filter

theorem sharers_pos_of_mem (hPlace : x ∈ S.places) (hTarget : S.target x = some r) :
    0 < S.sharers r :=
  Finset.card_pos.mpr ⟨x, mem_holders.mpr ⟨hPlace, hTarget⟩⟩

theorem Counted.sharers_of_free (h : S.Counted) (hFree : S.free r) : S.sharers r = 0 := by
  by_contra hNot
  exact (h.shared r (Nat.pos_of_ne_zero hNot)).2 hFree

section

variable
  (hPlaces : ∀ x r, x ∈ S.places ∧ S.target x = some r ↔ x ∈ T.places ∧ T.target x = some r)

include hPlaces

theorem holders_congr (r : Resource) : T.holders r = S.holders r := by
  ext x
  rw [mem_holders, mem_holders, hPlaces]

theorem sharers_congr (r : Resource) : T.sharers r = S.sharers r := by
  unfold sharers
  rw [holders_congr hPlaces]

end

/-- Nothing is referred to less often, and nothing is given back. -/
structure Extends (S T : Sharing Place Resource) : Prop where
  sharers : ∀ r, S.sharers r ≤ T.sharers r
  free : ∀ r, T.free r → S.free r

/-- A resource in use becomes free just when the last place gives it up. -/
def Releases (S T : Sharing Place Resource) : Prop :=
  ∀ r, ¬S.free r → (T.free r ↔ 0 < S.sharers r ∧ T.sharers r = 0)

namespace Extends

theorem refl (S : Sharing Place Resource) : S.Extends S :=
  ⟨fun _ => le_refl _, fun _ h => h⟩

theorem trans (h : S.Extends T) (h' : T.Extends U) : S.Extends U :=
  ⟨fun r => (h.sharers r).trans (h'.sharers r), fun r hFree => h.free r (h'.free r hFree)⟩

theorem releases (h : S.Extends T) : S.Releases T := by
  intro r hUsed
  refine ⟨fun hFree => absurd (h.free r hFree) hUsed, fun ⟨hBefore, hAfter⟩ => ?_⟩
  have hMore := h.sharers r
  omega

end Extends

/-- More places refer to resources that are referred to already, and each new reference is
counted. -/
theorem Counted.copy (h : S.Counted) {more : Resource → Nat}
    (hSharers : ∀ r, T.sharers r = S.sharers r + more r)
    (hMore : ∀ r, S.sharers r = 0 → more r = 0)
    (hCount : ∀ r, 0 < S.sharers r → T.count r = S.count r + more r)
    (hSame : ∀ r, S.sharers r = 0 → T.count r = S.count r)
    (hFree : ∀ r, T.free r → S.free r) : T.Counted ∧ S.Extends T := by
  refine ⟨⟨fun r hShared => ?_, fun r hUnused => ?_⟩, fun r => ?_, hFree⟩
  · rw [hSharers] at hShared ⊢
    have hBefore : 0 < S.sharers r := by
      by_contra hNot
      have hNone := hMore r (by omega)
      omega
    obtain ⟨hEq, hUsed⟩ := h.shared r hBefore
    rw [hCount r hBefore, hEq]
    exact ⟨(Nat.cast_add ..).symm, fun hNow => hUsed (hFree r hNow)⟩
  · rw [hSame r (h.sharers_of_free (hFree r hUnused))]
    exact h.unused r (hFree r hUnused)
  · rw [hSharers]
    exact Nat.le_add_right ..

/-- The references and the counts stay, and some free resources may be taken. -/
theorem Counted.keep (h : S.Counted) (hSharers : ∀ r, T.sharers r = S.sharers r)
    (hCount : ∀ r, T.count r = S.count r) (hFree : ∀ r, T.free r → S.free r) :
    T.Counted ∧ S.Extends T := by
  have hNoMore : ∀ r, T.sharers r = S.sharers r + 0 := hSharers
  refine h.copy hNoMore (fun _ _ => rfl) (fun r _ => ?_) (fun r _ => hCount r) hFree
  rw [hCount]
  exact (Int.add_zero _).symm

/-- What a call that removes references one by one, or adds them one by one, has done so far:
resources that were in use have not been taken anew. -/
structure Evolves (S T : Sharing Place Resource) : Prop where
  counted : T.Counted
  releases : S.Releases T
  fewer : ∀ r, ¬S.free r → T.sharers r ≤ S.sharers r

theorem Evolves.refl (h : S.Counted) : S.Evolves S :=
  ⟨h, (Extends.refl S).releases, fun _ _ => le_refl _⟩

/-- While no reference is given up, nothing is given back. -/
theorem Evolves.free_of (h : S.Evolves T) (hKept : ∀ r, S.sharers r ≤ T.sharers r)
    (hFree : T.free r) : S.free r := by
  by_contra hUsed
  obtain ⟨hBefore, hAfter⟩ := (h.releases r hUsed).mp hFree
  have hMore := hKept r
  omega

/-- How many of at most one reference are to a resource. -/
def one (reference : Option Resource) (r : Resource) : Nat :=
  if reference = some r then 1 else 0

/-- At most one reference goes and at most one is made, to a resource that was free. Both are
counted, and the resource that has lost its last reference becomes free. -/
structure Moves (S T : Sharing Place Resource) (old new : Option Resource) : Prop where
  sharers : ∀ r, T.sharers r + one old r = S.sharers r + one new r
  fresh : ∀ r, new = some r → S.free r
  count_new : ∀ r, new = some r → T.count r = 1
  count_old : ∀ r, old = some r → T.count r = S.count r - 1
  count_other : ∀ r, 0 < T.sharers r ∨ T.free r → old ≠ some r → new ≠ some r →
    T.count r = S.count r
  freed : ∀ r, old = some r → (T.free r ↔ T.count r = 0)
  free : ∀ r, T.free r → old ≠ some r → S.free r ∧ new ≠ some r

section Moves

variable {old new : Option Resource}

theorem one_of_ne (h : old ≠ some r) : one old r = 0 := if_neg h

theorem one_self (r : Resource) : one (some r) r = 1 := if_pos rfl

section

variable (h : S.Moves T old new) (hCounted : S.Counted)

include h hCounted

/-- The resource of the new reference is another one, and nothing refers to it before. -/
theorem Moves.new_eq (hNew : new = some r) : S.sharers r = 0 ∧ T.sharers r = 1 ∧ ¬T.free r := by
  have hNone := hCounted.sharers_of_free (h.fresh r hNew)
  have hZero := hCounted.unused r (h.fresh r hNew)
  have hOne := h.count_new r hNew
  have hSharers := h.sharers r
  have hOld : old ≠ some r := fun hOld => by
    have hLess := h.count_old r hOld
    omega
  rw [one_of_ne hOld, hNew, one_self] at hSharers
  exact ⟨hNone, by omega, fun hFree => (h.free r hFree hOld).2 hNew⟩

/-- Of another resource at most the one reference goes, and it is counted as before. -/
theorem Moves.of_ne (hNew : new ≠ some r) : T.sharers r + one old r = S.sharers r ∧
      (0 < S.sharers r → 0 < T.sharers r ∨ old = some r → T.count r = T.sharers r) := by
  have hSharers := h.sharers r
  rw [one_of_ne hNew] at hSharers
  refine ⟨hSharers, fun hBefore hPlace => ?_⟩
  have hEq := (hCounted.shared r hBefore).1
  by_cases hOld : old = some r
  · rw [hOld, one_self] at hSharers
    rw [h.count_old r hOld]
    omega
  · rw [one_of_ne hOld] at hSharers
    rw [h.count_other r (.inl (hPlace.resolve_right hOld)) hOld hNew]
    omega

theorem Moves.sharers_le (r : Resource) : T.sharers r ≤ max 1 (S.sharers r) := by
  by_cases hNew : new = some r
  · exact (h.new_eq hCounted hNew).2.1.le.trans (le_max_left ..)
  · have hSharers := (h.of_ne hCounted hNew).1
    omega

theorem Moves.counted : T.Counted := by
  refine ⟨fun r hShared => ?_, fun r hFree => ?_⟩
  · by_cases hNew : new = some r
    · obtain ⟨-, hOne, hUsed⟩ := h.new_eq hCounted hNew
      exact ⟨by rw [h.count_new r hNew, hOne]; rfl, hUsed⟩
    · obtain ⟨hSharers, hCount⟩ := h.of_ne hCounted hNew
      have hEq := hCount (by omega) (.inl hShared)
      refine ⟨hEq, fun hFree => ?_⟩
      by_cases hOld : old = some r
      · have hZero := (h.freed r hOld).mp hFree
        omega
      · exact (hCounted.shared r (by omega)).2 (h.free r hFree hOld).1
  · by_cases hOld : old = some r
    · exact (h.freed r hOld).mp hFree
    · obtain ⟨hBefore, hNew⟩ := h.free r hFree hOld
      rw [h.count_other r (.inr hFree) hOld hNew]
      exact hCounted.unused r hBefore

end

theorem Moves.extends (h : S.Moves T none new) (hCounted : S.Counted) :
    T.Counted ∧ S.Extends T := by
  refine ⟨h.counted hCounted, fun r => ?_, fun r hFree => (h.free r hFree nofun).1⟩
  have hSharers := h.sharers r
  rw [one_of_ne (nofun : none ≠ some r)] at hSharers
  omega

/-- What was free in between was free before or is so still. -/
theorem Evolves.move (h : S.Evolves T) (hMoves : T.Moves U old new)
    (hKept : ∀ r, T.free r → S.free r ∨ U.free r) : S.Evolves U := by
  have hNew : ∀ r, ¬S.free r → new ≠ some r := fun r hUsed hSame =>
    (hMoves.new_eq h.counted hSame).2.2 ((hKept r (hMoves.fresh r hSame)).resolve_left hUsed)
  refine ⟨hMoves.counted h.counted, fun r hUsed => ?_, fun r hUsed => ?_⟩
  · obtain ⟨hSharers, hCount⟩ := hMoves.of_ne h.counted (hNew r hUsed)
    have hFewer := h.fewer r hUsed
    by_cases hOld : old = some r
    · rw [hOld, one_self] at hSharers
      have hEq := hCount (by omega) (.inr hOld)
      rw [hMoves.freed r hOld]
      omega
    · rw [one_of_ne hOld] at hSharers
      have hSame : U.free r ↔ T.free r := ⟨fun hFree => (hMoves.free r hFree hOld).1,
        fun hFree => (hKept r hFree).resolve_left hUsed⟩
      rw [hSame, h.releases r hUsed]
      omega
  · have hSharers := (hMoves.of_ne h.counted (hNew r hUsed)).1
    have hFewer := h.fewer r hUsed
    omega

theorem Moves.releases (h : S.Moves T old new) (hCounted : S.Counted) : S.Releases T :=
  ((Evolves.refl hCounted).move h fun _ => .inl).releases

variable [DecidableEq Place]

theorem sharers_eq_erase (hPlace : x ∈ S.places) (r : Resource) :
    S.sharers r = ((S.holders r).erase x).card + one (S.target x) r := by
  by_cases hTarget : S.target x = some r
  · rw [hTarget, one_self, Finset.card_erase_add_one (mem_holders.mpr ⟨hPlace, hTarget⟩)]
    rfl
  · rw [one_of_ne hTarget,
      Finset.erase_eq_of_notMem fun hMem => hTarget (mem_holders.mp hMem).2]
    rfl

/-- The sharers when one place refers to something else. -/
theorem sharers_of_target (hPlaces : T.places = S.places) (hPlace : x ∈ S.places)
    (hTarget : ∀ y ∈ S.places, T.target y = if y = x then new else S.target y) (r : Resource) :
    T.sharers r + one (S.target x) r = S.sharers r + one new r := by
  have hRest : (T.holders r).erase x = (S.holders r).erase x := by
    ext y
    rw [Finset.mem_erase, Finset.mem_erase, mem_holders, mem_holders, hPlaces]
    refine and_congr_right fun hNe => and_congr_right fun hy => ?_
    rw [hTarget y hy, if_neg hNe]
  have hSelf : T.target x = new := by rw [hTarget x hPlace, if_pos rfl]
  rw [sharers_eq_erase hPlace, @sharers_eq_erase _ _ _ T x _ (hPlaces ▸ hPlace), hRest, hSelf]
  omega

end Moves

end Sharing

end Base
