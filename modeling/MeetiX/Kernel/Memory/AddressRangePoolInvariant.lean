import MeetiX.Kernel.Memory.AddressRangePool
import Mathlib.Data.List.Nodup

/-! What every history of a range pool keeps: the ranges are in order, cover the initialized areas
exactly and show each live allocation as one used range. No two free ranges touch, which lets a
free undo the split of the allocation before it. -/
namespace Kernel.AddressRangePool

open Base Base.Coalesce AddressRange List

def AddressRange.stop (range : AddressRange) : Nat :=
  range.base + range.pages * pageSize

structure AddressRange.Sound (range : AddressRange) : Prop where
  pages_pos : 0 < range.pages
  stop_lt : range.stop < wordSize

def AddressRange.Contains (range : AddressRange) (address : Nat) : Prop :=
  range.base ≤ address ∧ address < range.stop

def Before (a b : AddressRange) : Prop := a.stop ≤ b.base

instance : Trans Before Before Before where
  trans hab hbc := hab.trans ((Nat.le_add_right _ _).trans hbc)

variable {range a b : AddressRange} {pool before after result : Pool} {requestedPages flags base : Nat}

theorem AddressRange.Sound.base_lt_stop (h : range.Sound) : range.base < range.stop := by
  have := h.pages_pos
  unfold stop pageSize
  omega

theorem AddressRange.Sound.pages_lt (h : range.Sound) : range.pages < 2 ^ 20 := by
  have := h.stop_lt
  unfold stop pageSize wordSize at this
  omega

theorem mergeable_iff (ha : a.Sound) :
    mergeable a b = true ↔ a.used = false ∧ b.used = false ∧ a.stop = b.base := by
  have hStop := ha.stop_lt
  have hPages : wrap32 (a.pages * pageSize) = a.pages * pageSize :=
    wrap32_of_lt (lt_of_le_of_lt (Nat.le_add_left _ _) hStop)
  have hEnd : wrap32 (a.base + a.pages * pageSize) = a.stop := wrap32_of_lt hStop
  simp [mergeable, hPages, hEnd, and_assoc]

/-- Only the base and the state of the right neighbour count, and a merge
keeps both. -/
theorem mergeable_mergeWith (a b c : AddressRange) :
    mergeable a (mergeWith b c) = mergeable a b := rfl

theorem mergeWith_stop (ha : a.Sound) (hb : b.Sound)
    (hm : mergeable a b = true) : (mergeWith a b).stop = b.stop := by
  obtain ⟨-, -, hEnd⟩ := (mergeable_iff ha).mp hm
  have hWrap : wrap32 (a.pages + b.pages) = a.pages + b.pages := by
    have := ha.pages_lt
    have := hb.pages_lt
    exact wrap32_of_lt (by unfold wordSize; omega)
  simp only [stop, mergeWith, hWrap] at hEnd ⊢
  rw [Nat.add_mul, ← Nat.add_assoc, hEnd]

theorem mergeWith_sound (a b : AddressRange) (hm : mergeable a b = true)
    (ha : a.Sound) (hb : b.Sound) : (mergeWith a b).Sound := by
  refine ⟨?_, (mergeWith_stop ha hb hm).trans_lt hb.stop_lt⟩
  have hWrap : wrap32 (a.pages + b.pages) = a.pages + b.pages := by
    have := ha.pages_lt
    have := hb.pages_lt
    exact wrap32_of_lt (by unfold wordSize; omega)
  have := ha.pages_pos
  simp only [mergeWith]
  omega

theorem mergeWith_contains (address : Nat) (a b : AddressRange) (hm : mergeable a b = true)
    (ha : a.Sound) (hb : b.Sound) :
    (mergeWith a b).Contains address ↔ a.Contains address ∨ b.Contains address := by
  have hStop := mergeWith_stop ha hb hm
  obtain ⟨-, -, hEnd⟩ := (mergeable_iff ha).mp hm
  have := ha.base_lt_stop
  have := hb.base_lt_stop
  have hBase : (mergeWith a b).base = a.base := rfl
  unfold AddressRange.Contains
  omega

structure WellFormed (pool : Pool) : Prop where
  sound : ∀ range ∈ pool, range.Sound
  ordered : pool.Pairwise Before
  merged : pool.IsChain (fun a b => mergeable a b = false)

theorem wellFormed_nil : WellFormed [] :=
  ⟨by simp, List.Pairwise.nil, List.IsChain.nil⟩

/-- A merge needs only sound ranges in order. It brings back the third part
of the invariant. -/
theorem merge_wellFormed (hSound : ∀ range ∈ pool, range.Sound)
    (hOrdered : pool.Pairwise Before) : WellFormed (merge pool) := by
  cases pool with
  | nil => exact wellFormed_nil
  | cons current rest =>
    have hRight : ∀ a b y, mergeable a b = true → a.Sound → b.Sound → Before b y →
        Before (mergeWith a b) y := fun a b y hm ha hb hBefore =>
      (mergeWith_stop ha hb hm).trans_le hBefore
    obtain ⟨hChain, hMerged⟩ := isChain_sweep mergeWith_sound
      (fun x a b _ => ⟨id, mergeable_mergeWith x a b⟩) hRight current rest hSound
      (isChain_iff_pairwise.mpr hOrdered)
    exact ⟨forall_sweep mergeWith_sound current rest hSound, isChain_iff_pairwise.mp hChain,
      hMerged⟩

theorem merge_contains (hSound : ∀ range ∈ pool, range.Sound) (address : Nat) :
    (∃ range ∈ merge pool, range.Contains address) ↔
      ∃ range ∈ pool, range.Contains address := by
  cases pool with
  | nil => rfl
  | cons current rest =>
    exact exists_sweep_iff mergeWith_sound (mergeWith_contains address) current rest hSound

theorem merge_used (pool : Pool) : (merge pool).filter (·.used) = pool.filter (·.used) := by
  cases pool with
  | nil => rfl
  | cons current rest =>
    refine filter_sweep ?_ current rest
    intro a b hm
    simp only [mergeable, Bool.and_eq_true, Bool.not_eq_true'] at hm
    exact ⟨hm.1.1, hm.1.2, hm.1.1⟩

theorem merge_eq_self (h : WellFormed pool) : merge pool = pool := by
  cases pool with
  | nil => rfl
  | cons current rest => exact sweep_eq_self current rest h.merged

theorem WellFormed.base_lt (h : WellFormed pool) : pool.Pairwise (fun a b => a.base < b.base) := by
  refine h.ordered.imp_of_mem ?_
  intro a b ha _ hab
  exact (h.sound a ha).base_lt_stop.trans_le hab

theorem WellFormed.eq_of_base (h : WellFormed pool)
    (ha : a ∈ pool) (hb : b ∈ pool) (hBase : a.base = b.base) : a = b := by
  have hInj : (pool.map (·.base)).Nodup :=
    pairwise_map.mpr (h.base_lt.imp fun hlt => Nat.ne_of_lt hlt)
  exact inj_on_of_nodup_map hInj ha hb hBase

section Insert

variable {newRange : AddressRange}

theorem mem_insertRange : range ∈ insertRange newRange pool ↔ range = newRange ∨ range ∈ pool := by
  induction pool with
  | nil => simp [insertRange]
  | cons first rest ih =>
    rw [insertRange]
    split
    · rw [mem_cons, mem_cons]
      tauto
    · rw [mem_cons]

/-- The place behind the last lower base is the right one as long as the new
range overlaps none of the others. -/
theorem insertRange_ordered (hNew : newRange.Sound)
    (hSound : ∀ range ∈ pool, range.Sound) (hOrdered : pool.Pairwise Before)
    (hApart : ∀ range ∈ pool, Before range newRange ∨ Before newRange range) :
    (insertRange newRange pool).Pairwise Before := by
  induction pool with
  | nil => simp [insertRange]
  | cons first rest ih =>
    obtain ⟨hFirst, hRest⟩ := pairwise_cons.mp hOrdered
    have hNewLt := hNew.base_lt_stop
    have hFirstLt := (hSound first (by simp)).base_lt_stop
    rw [insertRange]
    split
    · rename_i hLower
      have hBefore : Before first newRange := by
        refine (hApart first (by simp)).resolve_right fun hAfter => ?_
        obtain ⟨range, hMem, hBase⟩ := any_eq_true.mp hLower
        have hBase : range.base < newRange.base := by simpa using hBase
        unfold Before at hAfter
        rcases mem_cons.mp hMem with rfl | hMem
        · omega
        · have := hFirst range hMem
          unfold Before at this
          omega
      refine pairwise_cons.mpr ⟨?_, ih (fun r hr => hSound r (by simp [hr])) hRest
        (fun r hr => hApart r (by simp [hr]))⟩
      intro range hMem
      rcases mem_insertRange.mp hMem with rfl | hMem
      · exact hBefore
      · exact hFirst range hMem
    · rename_i hLower
      refine pairwise_cons.mpr ⟨?_, hOrdered⟩
      intro range hMem
      refine (hApart range hMem).resolve_left fun hBefore => hLower ?_
      have hLt := (hSound range hMem).base_lt_stop
      unfold Before at hBefore
      exact any_eq_true.mpr ⟨range, hMem, by simp; omega⟩

end Insert

section Allocate

variable {requestedPages flags : Nat}
variable {range : AddressRange}

theorem allocateFrom_eq_some {result : Pool} {base : Nat}
    (h : allocateFrom requestedPages flags pool = some (base, result)) :
    ∃ before range after, pool = before ++ range :: after ∧ range.used = false ∧
      requestedPages ≤ range.pages ∧ base = range.base ∧
      result = before ++ (takeRange requestedPages flags range ++ after) := by
  induction pool generalizing result with
  | nil => simp [allocateFrom] at h
  | cons first rest ih =>
    rw [allocateFrom] at h
    split at h
    · rename_i hFits
      simp only [Bool.and_eq_true, Bool.not_eq_true', decide_eq_true_eq] at hFits
      obtain ⟨rfl, rfl⟩ := h
      exact ⟨[], first, rest, rfl, hFits.1, hFits.2, rfl, rfl⟩
    · simp only [Option.map_eq_some_iff, Prod.exists] at h
      obtain ⟨base, pool, hRest, rfl, rfl⟩ := h
      obtain ⟨before, range, after, rfl, hUsed, hPages, rfl, rfl⟩ := ih hRest
      exact ⟨first :: before, range, after, rfl, hUsed, hPages, rfl, rfl⟩

theorem takeRange_exact (hSound : range.Sound) (hPages : requestedPages = range.pages) :
    takeRange requestedPages flags range = [{ range with used := true, flags := flags }] := by
  subst hPages
  have := hSound.pages_lt
  have hRemaining : sub32 range.pages range.pages = 0 := by
    rw [sub32_of_le (le_refl _) (by unfold wordSize; omega)]
    omega
  simp [takeRange, hRemaining, toInt32]

theorem takeRange_split (hSound : range.Sound) (hPages : requestedPages < range.pages) :
    takeRange requestedPages flags range =
      [{ range with used := true, flags := flags, pages := requestedPages },
        { used := false, base := range.base + requestedPages * pageSize,
          pages := range.pages - requestedPages, flags := 0 }] := by
  have hLt := hSound.pages_lt
  have hRemaining : toInt32 (sub32 range.pages requestedPages) =
      ((range.pages - requestedPages : Nat) : Int) := by
    rw [sub32_of_le hPages.le (by unfold wordSize; omega), toInt32_of_lt (by omega)]
  have hMul : requestedPages * pageSize ≤ range.pages * pageSize :=
    Nat.mul_le_mul_right _ hPages.le
  have hStop := hSound.stop_lt
  unfold stop at hStop
  have hBase : wrap32 (range.base + wrap32 (requestedPages * pageSize)) =
      range.base + requestedPages * pageSize := by
    rw [wrap32_of_lt (n := requestedPages * pageSize) (by omega), wrap32_of_lt (by omega)]
  have hPos : (0 : Int) < ((range.pages - requestedPages : Nat) : Int) := by omega
  simp only [takeRange, hRemaining, hBase, if_pos hPos, Int.toNat_natCast]

theorem takeRange_contains {range : AddressRange} (hSound : range.Sound)
    (hPages : requestedPages ≤ range.pages) (address : Nat) :
    (∃ piece ∈ takeRange requestedPages flags range, piece.Contains address) ↔
      range.Contains address := by
  rcases hPages.eq_or_lt with hEq | hLt
  · rw [takeRange_exact hSound hEq]
    simp [AddressRange.Contains, stop]
  · rw [takeRange_split hSound hLt]
    have hSplit : range.base + requestedPages * pageSize +
        (range.pages - requestedPages) * pageSize = range.stop := by
      unfold stop pageSize
      omega
    simp only [mem_cons, not_mem_nil, or_false, exists_eq_or_imp, exists_eq_left]
    simp only [AddressRange.Contains, stop] at hSplit ⊢
    omega

theorem takeRange_used (hSound : range.Sound) (hPages : requestedPages ≤ range.pages) :
    (takeRange requestedPages flags range).filter (·.used) =
      [{ range with used := true, flags := flags, pages := requestedPages }] := by
  rcases hPages.eq_or_lt with hEq | hLt
  · rw [takeRange_exact hSound hEq]
    simp [hEq]
  · rw [takeRange_split hSound hLt]
    simp

end Allocate

/-- A range may be exchanged for pieces of it, if the pieces at both ends merge with no other
ranges than it does. -/
theorem WellFormed.replace {pieces : Pool} (h : WellFormed (before ++ range :: after))
    (hPieces : WellFormed pieces) (hNonempty : pieces ≠ [])
    (hFirst : ∀ p ∈ pieces.head?, range.base ≤ p.base ∧
      ∀ x, mergeable x range = false → mergeable x p = false)
    (hLast : ∀ p ∈ pieces.getLast?, p.stop ≤ range.stop ∧
      ∀ y, mergeable range y = false → mergeable p y = false) :
    WellFormed (before ++ (pieces ++ after)) := by
  refine ⟨fun r hr => ?_, isChain_iff_pairwise.mp ?_, ?_⟩
  · rcases mem_append.mp hr with hr | hr
    · exact h.sound r (by simp [hr])
    · rcases mem_append.mp hr with hr | hr
      · exact hPieces.sound r hr
      · exact h.sound r (by simp [hr])
  · exact isChain_replace (isChain_iff_pairwise.mpr h.ordered)
      (isChain_iff_pairwise.mpr hPieces.ordered) hNonempty
      (fun x hx p hp => le_trans hx (hFirst p hp).1) fun y hy p hp => (hLast p hp).1.trans hy
  · exact isChain_replace h.merged hPieces.merged hNonempty (fun x hx p hp => (hFirst p hp).2 x hx)
      fun y hy p hp => (hLast p hp).2 y hy

theorem mergeable_of_used (h : a.used = true ∨ b.used = true) : mergeable a b = false := by
  rcases h with h | h <;> simp [mergeable, h]

/-- An allocation leaves no free neighbours: the range taken was free, so the
ranges around it were used or apart from it. -/
theorem WellFormed.takeRange (h : WellFormed (before ++ range :: after))
    (hUsed : range.used = false) (hPos : 0 < requestedPages) (hPages : requestedPages ≤ range.pages) :
    WellFormed (before ++ (takeRange requestedPages flags range ++ after)) := by
  have hSound : range.Sound := h.sound range (by simp)
  rcases hPages.eq_or_lt with hEq | hLt
  · rw [takeRange_exact hSound hEq]
    refine h.replace ⟨?_, pairwise_singleton _ _, List.IsChain.singleton _⟩ (by simp) ?_ ?_
    · exact forall_mem_singleton.mpr ⟨hSound.pages_pos, hSound.stop_lt⟩
    · simpa using fun x _ => mergeable_of_used (.inr rfl)
    · simpa using ⟨le_refl range.stop, fun y _ => mergeable_of_used (.inl rfl)⟩
  · have hStop : range.base + requestedPages * pageSize +
        (range.pages - requestedPages) * pageSize = range.stop := by
      unfold stop pageSize
      omega
    have hLeft : (⟨true, range.base, requestedPages, flags⟩ : AddressRange).Sound := by
      have hEnd := hSound.stop_lt
      refine ⟨hPos, ?_⟩
      simp only [stop] at hStop hEnd ⊢
      omega
    have hRight : (⟨false, range.base + requestedPages * pageSize, range.pages - requestedPages, 0⟩ :
        AddressRange).Sound := ⟨Nat.sub_pos_of_lt hLt, hStop.trans_lt hSound.stop_lt⟩
    rw [takeRange_split hSound hLt]
    refine h.replace ⟨?_, pairwise_pair.mpr (le_refl _), ?_⟩ (by simp) ?_ ?_
    · simpa using ⟨hLeft, hRight⟩
    · simpa using mergeable_of_used (.inl rfl)
    · simpa using fun x _ => mergeable_of_used (.inr rfl)
    · simp only [getLast?_cons_cons, getLast?_singleton, Option.mem_some_iff, forall_eq']
      refine ⟨hStop.le, fun y hy => Bool.eq_false_iff.mpr fun hMerge => ?_⟩
      obtain ⟨-, hNext, hTouch⟩ := (mergeable_iff hRight).mp hMerge
      exact Bool.eq_false_iff.mp hy ((mergeable_iff hSound).mpr ⟨hUsed, hNext, hStop ▸ hTouch⟩)

theorem allocateFrom_wellFormed (h : WellFormed pool) (hPos : 0 < requestedPages)
    (hAlloc : allocateFrom requestedPages flags pool = some (base, result)) :
    WellFormed result := by
  obtain ⟨before, range, after, rfl, hUsed, hPages, -, rfl⟩ := allocateFrom_eq_some hAlloc
  exact h.takeRange hUsed hPos hPages

theorem allocateFrom_contains
    (h : WellFormed pool) (hAlloc : allocateFrom requestedPages flags pool = some (base, result))
    (address : Nat) :
    (∃ range ∈ result, range.Contains address) ↔ ∃ range ∈ pool, range.Contains address := by
  obtain ⟨before, range, after, rfl, -, hPages, -, rfl⟩ := allocateFrom_eq_some hAlloc
  have hPieces := @takeRange_contains _ flags _ (h.sound range (by simp)) hPages address
  simp only [mem_append, mem_cons, or_and_right, exists_or, exists_eq_left] at hPieces ⊢
  rw [hPieces]

section Release

variable {base : Nat}

theorem releaseFrom_eq_some {released : Pool} {freedPages : Int}
    (h : releaseFrom base pool = some (freedPages, released)) :
    ∃ before range after, pool = before ++ range :: after ∧ range.used = true ∧
      range.base = base ∧ freedPages = toInt32 range.pages ∧
      released = before ++ { range with used := false } :: after := by
  induction pool generalizing released with
  | nil => simp [releaseFrom] at h
  | cons first rest ih =>
    rw [releaseFrom] at h
    split at h
    · rename_i hBase
      split at h
      · rename_i hUsed
        obtain ⟨rfl, rfl⟩ := h
        exact ⟨[], first, rest, rfl, hUsed, hBase, rfl, rfl⟩
      · simp at h
    · simp only [Option.map_eq_some_iff, Prod.exists] at h
      obtain ⟨freed, pool, hRest, rfl, rfl⟩ := h
      obtain ⟨before, range, after, rfl, hUsed, hBase, rfl, rfl⟩ := ih hRest
      exact ⟨first :: before, range, after, rfl, hUsed, hBase, rfl, rfl⟩

/-- The search stops at the used range with this base when no range before it
has the same base. -/
theorem releaseFrom_append {before after : Pool}
    (hBefore : ∀ r ∈ before, r.base ≠ base) (hBase : range.base = base) (hUsed : range.used = true) :
    releaseFrom base (before ++ range :: after) =
      some (toInt32 range.pages, before ++ { range with used := false } :: after) := by
  induction before with
  | nil => simp [releaseFrom, hUsed, hBase]
  | cons first before ih =>
    rw [cons_append, releaseFrom, if_neg (hBefore first (by simp)),
      ih (fun r hr => hBefore r (by simp [hr]))]
    rfl

theorem releaseFrom_eq_none (h : ¬∃ range ∈ pool, range.used = true ∧ range.base = base) :
    releaseFrom base pool = none := by
  cases hRelease : releaseFrom base pool with
  | none => rfl
  | some result =>
    obtain ⟨before, range, after, rfl, hUsed, hBase, -, -⟩ := releaseFrom_eq_some hRelease
    exact absurd ⟨range, by simp, hUsed, hBase⟩ h

end Release

end Kernel.AddressRangePool
