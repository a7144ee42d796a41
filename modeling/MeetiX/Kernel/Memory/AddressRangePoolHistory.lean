import MeetiX.Kernel.Memory.AddressRangePoolInvariant

/-! Histories of a range pool. The ledger remembers what the callers know: the
areas handed to the pool and the allocations that were not freed yet. -/
namespace Kernel.AddressRangePool

open Base Base.Coalesce List

inductive Op where
  | initializeArea (start stop : Nat)
  | allocate (requestedPages flags : Nat)
  | free (base : Nat)
deriving DecidableEq, Repr

structure Ledger where
  pool : Pool
  areas : List (Nat × Nat)
  live : List (Nat × Nat)
deriving DecidableEq, Repr

def Ledger.empty : Ledger := ⟨[], [], []⟩

/-- The callers hand in page-aligned areas that have pages and overlap none of the earlier ones,
and free on initialized pools only. An allocation is live when the caller got an address for it.
-/
inductive Step : Ledger → Op → Ledger → Prop where
  | initializeArea {s : Ledger} {start stop : Nat}
      (hStart : start % pageSize = 0) (hStop : stop % pageSize = 0)
      (hNonempty : start < stop) (hWord : stop < wordSize)
      (hApart : ∀ area ∈ s.areas, stop ≤ area.1 ∨ area.2 ≤ start) :
      Step s (.initializeArea start stop)
        { s with pool := AddressRangePool.initializeArea s.pool start stop,
                 areas := (start, stop) :: s.areas }
  | allocate {s : Ledger} {requestedPages flags base : Nat} {pool : Pool}
      (hWord : requestedPages < wordSize)
      (hAllocate : AddressRangePool.allocate s.pool requestedPages flags = (base, pool)) :
      Step s (.allocate requestedPages flags)
        { s with pool := pool,
                 live := if base = 0 then s.live
                   else (base, if requestedPages = 0 then 1 else requestedPages) :: s.live }
  | free {s : Ledger} {base : Nat} {freedPages : Int} {pool : Pool}
      (hFree : AddressRangePool.free s.pool base = some (freedPages, pool)) :
      Step s (.free base)
        { s with pool := pool, live := s.live.filter (fun entry => entry.1 ≠ base) }

structure Invariant (s : Ledger) : Prop where
  wellFormed : WellFormed s.pool
  cover : ∀ address, (∃ range ∈ s.pool, range.Contains address) ↔
    ∃ area ∈ s.areas, area.1 ≤ address ∧ address < area.2
  live_iff : ∀ base pages, (base, pages) ∈ s.live ↔
    base ≠ 0 ∧ ∃ range ∈ s.pool.filter (·.used), range.base = base ∧ range.pages = pages
  areas_nonempty : ∀ area ∈ s.areas, area.1 < area.2

variable {pool result : Pool} {base requestedPages flags : Nat} {s : Ledger}

theorem Invariant.empty : Invariant Ledger.empty :=
  ⟨wellFormed_nil, by simp [Ledger.empty], by simp [Ledger.empty], by simp [Ledger.empty]⟩

/-- A new area is a sound range that is apart from all ranges of the pool,
since these lie inside the earlier areas. -/
theorem Invariant.initializeArea {s : Ledger} (h : Invariant s) {start stop : Nat}
    (hStart : start % pageSize = 0) (hStop : stop % pageSize = 0)
    (hNonempty : start < stop) (hWord : stop < wordSize)
    (hApart : ∀ area ∈ s.areas, stop ≤ area.1 ∨ area.2 ≤ start) :
    Invariant { s with pool := AddressRangePool.initializeArea s.pool start stop,
                       areas := (start, stop) :: s.areas } := by
  have hPages : sub32 stop start / pageSize = (stop - start) / pageSize := by
    rw [sub32_of_le hNonempty.le hWord]
  let newRange : AddressRange :=
    { used := false, base := start, pages := sub32 stop start / pageSize, flags := 0 }
  have hEnd : newRange.stop = stop := by
    unfold pageSize at hStart hStop hPages
    simp only [newRange, AddressRange.stop, pageSize]
    omega
  have hNew : newRange.Sound := by
    refine ⟨?_, hEnd.trans_lt hWord⟩
    unfold pageSize at hStart hStop hPages
    simp only [newRange, pageSize]
    omega
  have hDisjoint : ∀ range ∈ s.pool, Before range newRange ∨ Before newRange range := by
    intro range hMem
    have hLt := (h.wellFormed.sound range hMem).base_lt_stop
    by_contra hOverlap
    simp only [Before] at hOverlap
    have hBase : newRange.base = start := rfl
    -- the first address the two have in common lies in some earlier area
    obtain ⟨area, hArea, hLow, hHigh⟩ :=
      (h.cover (max range.base start)).mp ⟨range, hMem, by unfold AddressRange.Contains; omega⟩
    have := hApart area hArea
    omega
  have hSound : ∀ range ∈ insertRange newRange s.pool, range.Sound := by
    intro range hMem
    rcases mem_insertRange.mp hMem with rfl | hMem
    · exact hNew
    · exact h.wellFormed.sound range hMem
  have hOrdered := insertRange_ordered hNew h.wellFormed.sound h.wellFormed.ordered hDisjoint
  refine ⟨merge_wellFormed hSound hOrdered, fun address => ?_, fun base pages => ?_, ?_⟩
  · rw [AddressRangePool.initializeArea, merge_contains hSound]
    simp only [mem_insertRange, or_and_right, exists_or, exists_eq_left, h.cover,
      mem_cons]
    simp only [AddressRange.Contains, hEnd]
    rfl
  · rw [h.live_iff, AddressRangePool.initializeArea, merge_used]
    simp only [mem_filter, mem_insertRange]
    constructor
    · rintro ⟨hBase, range, ⟨hMem, hUsed⟩, hRange⟩
      exact ⟨hBase, range, ⟨Or.inr hMem, hUsed⟩, hRange⟩
    · rintro ⟨hBase, range, ⟨rfl | hMem, hUsed⟩, hRange⟩
      · simp at hUsed
      · exact ⟨hBase, range, ⟨hMem, hUsed⟩, hRange⟩
  · intro area hArea
    rcases mem_cons.mp hArea with rfl | hArea
    · exact hNonempty
    · exact h.areas_nonempty area hArea

theorem allocate_cases (h : allocate pool requestedPages flags = (base, result)) :
    (base = 0 ∧ result = pool) ∨
      allocateFrom (if requestedPages = 0 then 1 else requestedPages) flags pool =
        some (base, result) := by
  unfold allocate at h
  cases hFrom : allocateFrom (if requestedPages = 0 then 1 else requestedPages) flags pool with
  | none =>
    rw [hFrom] at h
    simp only [Option.getD_none, Prod.mk.injEq] at h
    exact Or.inl ⟨h.1.symm, h.2.symm⟩
  | some served =>
    rw [hFrom] at h
    exact Or.inr (congrArg some h)

/-- A range that is handed out is cut off a free one. -/
theorem Invariant.allocate {s : Ledger} (h : Invariant s) {requestedPages flags base : Nat}
    {pool : Pool} (hAllocate : AddressRangePool.allocate s.pool requestedPages flags = (base, pool)) :
    Invariant { s with pool := pool,
                       live := if base = 0 then s.live
                         else (base, if requestedPages = 0 then 1 else requestedPages) :: s.live } := by
  rcases allocate_cases hAllocate with ⟨rfl, rfl⟩ | hFrom
  · simpa using h
  · have hPos : 0 < (if requestedPages = 0 then 1 else requestedPages) := by split <;> omega
    refine ⟨allocateFrom_wellFormed h.wellFormed hPos hFrom, fun address => ?_,
      fun b n => ?_, h.areas_nonempty⟩
    · rw [allocateFrom_contains h.wellFormed hFrom, h.cover]
    · obtain ⟨before, range, after, hPool, hUsed, hPages, rfl, rfl⟩ := allocateFrom_eq_some hFrom
      have hSound : range.Sound := h.wellFormed.sound range (by simp [hPool])
      have hOld := h.live_iff b n
      rw [hPool] at hOld
      simp only [filter_append, takeRange_used hSound hPages, filter_cons, hUsed,
        mem_append, mem_singleton, or_and_right, exists_or, exists_eq_left] at hOld ⊢
      split
      · rename_i hZero
        rw [hOld]
        constructor
        · rintro ⟨hb, hRange⟩
          exact ⟨hb, hRange.imp_right Or.inr⟩
        · rintro ⟨hb, hBefore | hTaken | hAfter⟩
          · exact ⟨hb, Or.inl hBefore⟩
          · exact absurd (hTaken.1.symm.trans hZero) hb
          · exact ⟨hb, Or.inr hAfter⟩
      · rename_i hBase
        rw [mem_cons, Prod.mk.injEq, hOld]
        constructor
        · rintro (⟨rfl, rfl⟩ | ⟨hb, hBefore | hAfter⟩)
          · exact ⟨hBase, Or.inr (Or.inl ⟨rfl, rfl⟩)⟩
          · exact ⟨hb, Or.inl hBefore⟩
          · exact ⟨hb, Or.inr (Or.inr hAfter)⟩
        · rintro ⟨hb, hBefore | hTaken | hAfter⟩
          · exact Or.inr ⟨hb, Or.inl hBefore⟩
          · exact Or.inl ⟨hTaken.1.symm, hTaken.2.symm⟩
          · exact Or.inr ⟨hb, Or.inr hAfter⟩

/-- A free either changes nothing or releases the used range with this base. -/
theorem free_cases {freedPages : Int} (h : free pool base = some (freedPages, result)) :
    (freedPages = -1 ∧ result = pool ∧ releaseFrom base pool = none) ∨
      ∃ released, releaseFrom base pool = some (freedPages, released) ∧ result = merge released := by
  cases pool with
  | nil => simp [free] at h
  | cons first rest =>
    simp only [free, Option.some.injEq] at h
    cases hFrom : releaseFrom base (first :: rest) with
    | none =>
      rw [hFrom] at h
      simp only [Prod.mk.injEq] at h
      exact Or.inl ⟨h.1.symm, h.2.symm, rfl⟩
    | some found =>
      obtain ⟨freed, released⟩ := found
      rw [hFrom] at h
      simp only [Prod.mk.injEq] at h
      exact Or.inr ⟨released, by rw [h.1], h.2.symm⟩

theorem free_of_not_used (hPool : pool ≠ [])
    (h : ¬∃ range ∈ pool, range.used = true ∧ range.base = base) :
    free pool base = some (-1, pool) := by
  cases pool with
  | nil => exact absurd rfl hPool
  | cons first rest => simp only [free, releaseFrom_eq_none h]

theorem releaseFrom_of_mem (h : WellFormed pool) {range : AddressRange}
    (hMem : range ∈ pool) (hUsed : range.used = true) :
    ∃ before after, pool = before ++ range :: after ∧
      (∀ r ∈ before ++ after, r.base ≠ range.base) ∧
      releaseFrom range.base pool =
        some (toInt32 range.pages, before ++ { range with used := false } :: after) := by
  obtain ⟨before, after, rfl⟩ := append_of_mem hMem
  obtain ⟨-, hRest, hCross⟩ := pairwise_append.mp h.base_lt
  obtain ⟨hAfter, -⟩ := pairwise_cons.mp hRest
  have hBefore : ∀ r ∈ before, r.base ≠ range.base :=
    fun r hr => Nat.ne_of_lt (hCross r hr range (by simp))
  refine ⟨before, after, rfl, ?_, releaseFrom_append hBefore rfl hUsed⟩
  intro r hr
  rcases mem_append.mp hr with hr | hr
  · exact hBefore r hr
  · exact Nat.ne_of_gt (hAfter r hr)

/-- A range that is given back is free again, and the areas stay covered. -/
theorem Invariant.free {s : Ledger} (h : Invariant s) {base : Nat} {freedPages : Int} {pool : Pool}
    (hFree : AddressRangePool.free s.pool base = some (freedPages, pool)) :
    Invariant { s with pool := pool,
                       live := s.live.filter (fun entry => entry.1 ≠ base) } := by
  rcases free_cases hFree with ⟨-, rfl, hNone⟩ | ⟨released, hFrom, rfl⟩
  · refine ⟨h.wellFormed, h.cover, fun b n => ?_, h.areas_nonempty⟩
    simp only [mem_filter, h.live_iff, decide_eq_true_eq]
    constructor
    · exact fun hEntry => hEntry.1
    · rintro ⟨hb, range, ⟨hMem, hUsed⟩, hRange⟩
      refine ⟨⟨hb, range, ⟨hMem, hUsed⟩, hRange⟩, ?_⟩
      rintro rfl
      obtain ⟨_, _, _, _, hSome⟩ := releaseFrom_of_mem h.wellFormed hMem hUsed
      rw [hRange.1, hNone] at hSome
      simp at hSome
  · obtain ⟨_, range, _, hPool, hUsed, rfl, -, -⟩ := releaseFrom_eq_some hFrom
    have hMem : range ∈ s.pool := by rw [hPool]; simp
    obtain ⟨before, after, hSplit, hUnique, hSome⟩ := releaseFrom_of_mem h.wellFormed hMem hUsed
    obtain ⟨-, rfl⟩ := Prod.mk.inj (Option.some.inj (hFrom.symm.trans hSome))
    have hWf := h.wellFormed
    rw [hSplit] at hWf
    have hSound : range.Sound := hWf.sound range (by simp)
    have hOrdered : (before ++ ([{ range with used := false }] ++ after)).Pairwise Before :=
      isChain_iff_pairwise.mp (isChain_replace (isChain_iff_pairwise.mpr hWf.ordered)
        (List.IsChain.singleton _) (by simp) (by simp [Before]) (by simp [Before, AddressRange.stop]))
    have hAllSound : ∀ r ∈ before ++ { range with used := false } :: after, r.Sound := by
      intro r hr
      simp only [mem_append, mem_cons] at hr
      rcases hr with hr | rfl | hr
      · exact hWf.sound r (by simp [hr])
      · exact ⟨hSound.pages_pos, hSound.stop_lt⟩
      · exact hWf.sound r (by simp [hr])
    refine ⟨merge_wellFormed hAllSound hOrdered, fun address => ?_, fun b n => ?_, h.areas_nonempty⟩
    · rw [merge_contains hAllSound, ← h.cover, hSplit]
      simp only [mem_append, mem_cons, or_and_right, exists_or, exists_eq_left]
      rfl
    · have hOld := h.live_iff b n
      rw [hSplit] at hOld
      rw [merge_used]
      simp only [mem_filter, hOld, decide_eq_true_eq, mem_append, mem_cons]
      constructor
      · rintro ⟨⟨hb, r, ⟨hMem, hr⟩, hEntry⟩, hne⟩
        refine ⟨hb, r, ⟨?_, hr⟩, hEntry⟩
        rcases hMem with hMem | rfl | hMem
        · exact Or.inl hMem
        · exact absurd hEntry.1.symm hne
        · exact Or.inr (Or.inr hMem)
      · rintro ⟨hb, r, ⟨hMem, hr⟩, hEntry⟩
        have hKept : r ∈ before ++ after := by
          rcases hMem with hMem | rfl | hMem
          · exact mem_append_left _ hMem
          · simp at hr
          · exact mem_append_right _ hMem
        refine ⟨⟨hb, r, ⟨?_, hr⟩, hEntry⟩, fun hne => hUnique r hKept (hEntry.1.trans hne)⟩
        exact (mem_append.mp hKept).imp_right Or.inr

/-- The invariant holds along every history. -/
theorem Step.invariant {t : Ledger} {op : Op} (h : Invariant s) (hStep : Step s op t) :
    Invariant t := by
  cases hStep with
  | initializeArea hStart hStop hNonempty hWord hApart =>
    exact h.initializeArea hStart hStop hNonempty hWord hApart
  | allocate _ hAllocate => exact h.allocate hAllocate
  | free hFree => exact h.free hFree

theorem run_invariant {ops : List Op} (run : Run Step Ledger.empty ops s) : Invariant s :=
  run.invariant Invariant.empty fun _ _ _ h hStep => hStep.invariant h

section OneArea

variable {s : Ledger} {start stop : Nat}

theorem Invariant.contains_iff (h : Invariant s) (hAreas : s.areas = [(start, stop)])
    (address : Nat) :
    (∃ range ∈ s.pool, range.Contains address) ↔ start ≤ address ∧ address < stop := by
  rw [h.cover, hAreas]
  simp

theorem Invariant.inside (h : Invariant s) (hAreas : s.areas = [(start, stop)])
    {range : AddressRange} (hMem : range ∈ s.pool) : start ≤ range.base ∧ range.stop ≤ stop := by
  have hLt := (h.wellFormed.sound range hMem).base_lt_stop
  have hFirst := (h.contains_iff hAreas range.base).mp ⟨range, hMem, le_rfl, hLt⟩
  have hLast := (h.contains_iff hAreas (range.stop - 1)).mp
    ⟨range, hMem, Nat.le_sub_one_of_lt hLt, by omega⟩
  omega

end OneArea

def AddressRange.triple (range : AddressRange) : Nat × Nat × Bool :=
  (range.base, range.pages, range.used)

/-- Freeing the block just allocated merges the two halves of the split and
nothing else. -/
theorem free_allocateFrom (h : WellFormed pool) (hPos : 0 < requestedPages)
    (hFrom : allocateFrom requestedPages flags pool = some (base, result)) :
    ∃ freedPages restored, free result base = some (freedPages, restored) ∧
      restored.map AddressRange.triple = pool.map AddressRange.triple := by
  obtain ⟨before, range, after, rfl, hUsed, hPages, rfl, rfl⟩ := allocateFrom_eq_some hFrom
  have hSound : range.Sound := h.sound range (by simp)
  have hBases : ∀ r ∈ before, r.base ≠ range.base := by
    obtain ⟨-, -, hCross⟩ := pairwise_append.mp h.base_lt
    exact fun r hr => Nat.ne_of_lt (hCross r hr range (by simp))
  let restored : Pool := before ++ { range with flags := flags } :: after
  have hTriples : restored.map AddressRange.triple =
      (before ++ range :: after).map AddressRange.triple := by
    simp [restored, AddressRange.triple]
  have hRestored : WellFormed (before ++ ([{ range with flags := flags }] ++ after)) :=
    h.replace
      ⟨forall_mem_singleton.mpr ⟨hSound.pages_pos, hSound.stop_lt⟩, pairwise_singleton _ _,
        List.IsChain.singleton _⟩ (by simp) (by simp [mergeable]) (by simp [mergeable, AddressRange.stop])
  suffices hMerge : ∃ freedPages released,
      releaseFrom range.base (before ++ (takeRange requestedPages flags range ++ after)) =
        some (freedPages, released) ∧ merge released = restored by
    obtain ⟨freedPages, released, hRelease, hMerge⟩ := hMerge
    refine ⟨freedPages, restored, ?_, hTriples⟩
    unfold free
    split
    · rename_i hNil
      simp [hNil, releaseFrom] at hRelease
    · rw [hRelease]
      simp only [hMerge]
  rcases hPages.eq_or_lt with hEq | hLt
  · rw [takeRange_exact hSound hEq]
    refine ⟨_, _, releaseFrom_append hBases rfl rfl, ?_⟩
    have hSame : ({ range with used := false, flags := flags } : AddressRange) =
        { range with flags := flags } := by rw [← hUsed]
    simp only [hSame]
    exact merge_eq_self hRestored
  · rw [takeRange_split hSound hLt]
    refine ⟨_, _, releaseFrom_append hBases rfl rfl, ?_⟩
    let left : AddressRange := { range with used := false, flags := flags, pages := requestedPages }
    let right : AddressRange :=
      { used := false, base := range.base + requestedPages * pageSize,
        pages := range.pages - requestedPages, flags := 0 }
    have hJoin : mergeWith left right = { range with flags := flags } := by
      have := hSound.pages_lt
      have hSum : wrap32 (requestedPages + (range.pages - requestedPages)) = range.pages := by
        rw [wrap32_of_lt (by unfold wordSize; omega)]
        omega
      simp only [mergeWith, left, right, hSum, ← hUsed]
    have hLeft : left.Sound := by
      have hStop := hSound.stop_lt
      refine ⟨hPos, lt_of_le_of_lt ?_ hStop⟩
      exact Nat.add_le_add_left (Nat.mul_le_mul_right _ hPages) _
    have hMergeable : mergeable left right = true :=
      (mergeable_iff hLeft).mpr ⟨rfl, rfl, rfl⟩
    change coalesce mergeable mergeWith (before ++ left :: right :: after) = restored
    obtain ⟨hBefore, hRest, hCross⟩ := isChain_append.mp hRestored.merged
    rw [coalesce_append_cons_cons hMergeable ?_ (hJoin ▸ hRest), hJoin]
    refine hBefore.append (isChain_singleton _) ?_
    intro x hx y hy
    obtain rfl : left = y := by simpa using hy
    have hOld := hCross x hx { range with flags := flags } rfl
    have hSame : mergeable x { range with flags := flags } = mergeable x left := by
      simp [mergeable, left, hUsed]
    rwa [hSame] at hOld

/-- Every history keeps the range list in order, apart and equal to the initialized areas. Each
live allocation is one used range of the requested size, a free of anything else answers -1 and
changes nothing, and a free right after an allocation gives the list back. -/
theorem history_keeps_ranges {ops : List Op} {s : Ledger} (run : Run Step Ledger.empty ops s) :
    s.pool.Pairwise (fun a b => a.base < b.base) ∧
    s.pool.Pairwise (fun a b => ∀ address, ¬(a.Contains address ∧ b.Contains address)) ∧
    (∀ address, (∃ range ∈ s.pool, range.Contains address) ↔
      ∃ area ∈ s.areas, area.1 ≤ address ∧ address < area.2) ∧
    (∀ base pages, (base, pages) ∈ s.live →
      ∃! range, range ∈ s.pool ∧ range.used = true ∧ range.base = base ∧ range.pages = pages) ∧
    (∀ base, s.areas ≠ [] → (¬∃ range ∈ s.pool, range.used = true ∧ range.base = base) →
      free s.pool base = some (-1, s.pool)) ∧
    (∀ requestedPages flags base pool,
      allocate s.pool requestedPages flags = (base, pool) → base ≠ 0 →
      ∃ freedPages restored, free pool base = some (freedPages, restored) ∧
        restored.map AddressRange.triple = s.pool.map AddressRange.triple) := by
  have h := run_invariant run
  refine ⟨h.wellFormed.base_lt, ?_, h.cover, ?_, ?_, ?_⟩
  · refine h.wellFormed.ordered.imp ?_
    intro a b hab address ⟨ha, hb⟩
    unfold Before at hab
    unfold AddressRange.Contains at ha hb
    omega
  · intro base pages hLive
    obtain ⟨-, range, hMem, hRange⟩ := (h.live_iff base pages).mp hLive
    obtain ⟨hMem, hUsed⟩ := mem_filter.mp hMem
    refine ⟨range, ⟨hMem, hUsed, hRange⟩, ?_⟩
    rintro other ⟨hOther, -, hBase, -⟩
    exact h.wellFormed.eq_of_base hOther hMem (hBase.trans hRange.1.symm)
  · intro base hAreas hUnused
    refine free_of_not_used ?_ hUnused
    rintro hNil
    obtain ⟨area, hArea⟩ := exists_mem_of_ne_nil _ hAreas
    obtain ⟨range, hMem, -⟩ := (h.cover area.1).mpr
      ⟨area, hArea, le_refl _, h.areas_nonempty area hArea⟩
    simp [hNil] at hMem
  · intro requestedPages flags base pool hAllocate hBase
    rcases allocate_cases hAllocate with ⟨hZero, -⟩ | hFrom
    · exact absurd hZero hBase
    · exact free_allocateFrom h.wellFormed (by split <;> omega) hFrom

/-- A user area with two allocations, the first one freed again. -/
theorem history_keeps_ranges_two_blocks :
    ∃ s, Run Step Ledger.empty [.initializeArea 0xA0000000 0xA0010000, .allocate 2 1,
        .allocate 3 0, .free 0xA0000000] s ∧
      s.live = [(0xA0002000, 3)] ∧
      free s.pool 0xA0000000 = some (-1, s.pool) := by
  have hInitialize : Step Ledger.empty (.initializeArea 0xA0000000 0xA0010000) _ :=
    Step.initializeArea (by decide) (by decide) (by decide) (by decide) (by decide)
  have run := (((Run.single hInitialize).snoc (@Step.allocate _ 2 1 _ _ (by decide) rfl)).snoc
    (@Step.allocate _ 3 0 _ _ (by decide) rfl)).snoc (@Step.free _ 0xA0000000 _ _ rfl)
  exact ⟨_, run, rfl, (history_keeps_ranges run).2.2.2.2.1 0xA0000000 (by decide) (by decide)⟩

end Kernel.AddressRangePool
