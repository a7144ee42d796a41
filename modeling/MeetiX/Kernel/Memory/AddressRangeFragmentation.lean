import MeetiX.Kernel.Memory.AddressRangePoolHistory

/-! An allocation looks at single ranges. It still finds every run of free pages that is long
enough: a merge after each free leaves no two free ranges next to each other. -/
namespace Kernel.AddressRangePool

open Base Base.Coalesce List

/-- No live allocation has one of the pages. -/
def Ledger.FreePages (s : Ledger) (base pages : Nat) : Prop :=
  ∀ address, base ≤ address → address < base + pages * pageSize →
    ∀ entry ∈ s.live, ¬ (entry.1 ≤ address ∧ address < entry.1 + entry.2 * pageSize)

variable {pool : Pool} {a b : AddressRange} {s : Ledger}

theorem WellFormed.before_or_before (h : WellFormed pool)
    (ha : a ∈ pool) (hb : b ∈ pool) (hNe : a ≠ b) : Before a b ∨ Before b a := by
  have hSymm : Std.Symm fun a b => Before a b ∨ Before b a := ⟨fun _ _ => Or.symm⟩
  have hPairs : pool.Pairwise fun a b => Before a b ∨ Before b a := h.ordered.imp Or.inl
  exact hPairs.forall ha hb hNe

/-- A range that ends where another one begins stands right before it. -/
theorem WellFormed.mergeable_of_touch (h : WellFormed pool)
    (ha : a ∈ pool) (hb : b ∈ pool) (hTouch : a.stop = b.base) : mergeable a b = false := by
  have hA := (h.sound a ha).base_lt_stop
  have hB := (h.sound b hb).base_lt_stop
  obtain ⟨before, rest, rfl⟩ := append_of_mem ha
  obtain ⟨-, hRest, hCross⟩ := pairwise_append.mp h.ordered
  obtain ⟨hAfter, hOrdered⟩ := pairwise_cons.mp hRest
  rcases mem_append.mp hb with hBefore | hBehind
  · have hLe : b.stop ≤ a.base := hCross b hBefore a mem_cons_self
    omega
  · rcases mem_cons.mp hBehind with rfl | hBehind
    · omega
    · cases rest with
      | nil => exact absurd hBehind not_mem_nil
      | cons next rest =>
        obtain ⟨-, hChain, -⟩ := isChain_append.mp h.merged
        rcases mem_cons.mp hBehind with rfl | hLater
        · exact (isChain_cons_cons.mp hChain).1
        · -- the range in between would have no page
          have hNext := (h.sound next (by simp)).base_lt_stop
          have hFirst : a.stop ≤ next.base := hAfter next mem_cons_self
          have hSecond : next.stop ≤ b.base := (pairwise_cons.mp hOrdered).1 b hLater
          omega

theorem allocateFrom_eq_none_iff {requestedPages flags : Nat} :
    allocateFrom requestedPages flags pool = none ↔
      ∀ range ∈ pool, range.used = false → range.pages < requestedPages := by
  induction pool with
  | nil => simp [allocateFrom]
  | cons first rest ih =>
    rw [allocateFrom]
    split
    · rename_i hFits
      simp only [Bool.and_eq_true, Bool.not_eq_true', decide_eq_true_eq] at hFits
      simp only [reduceCtorEq, false_iff, not_forall]
      exact ⟨first, mem_cons_self, hFits.1, Nat.not_lt.mpr hFits.2⟩
    · rename_i hFits
      simp only [Bool.and_eq_true, Bool.not_eq_true', decide_eq_true_eq, not_and,
        Nat.not_le] at hFits
      rw [Option.map_eq_none_iff, ih, forall_mem_cons]
      exact ⟨fun hRest => ⟨hFits, hRest⟩, fun hAll => hAll.2⟩

/-- A range begins where an area does or where the range before it ends. -/
theorem Invariant.aligned (h : Invariant s)
    (hAreas : ∀ area ∈ s.areas, area.1 % pageSize = 0) {range : AddressRange}
    (hMem : range ∈ s.pool) : range.base % pageSize = 0 := by
  induction hBase : range.base using Nat.strong_induction_on generalizing range with
  | h base ih =>
    subst hBase
    have hLt := (h.wellFormed.sound range hMem).base_lt_stop
    obtain ⟨area, hArea, hLow, hHigh⟩ := (h.cover range.base).mp ⟨range, hMem, le_rfl, hLt⟩
    rcases hLow.eq_or_lt with hFirst | hInside
    · rw [← hFirst]
      exact hAreas area hArea
    · obtain ⟨last, hLast, hContains⟩ :=
        (h.cover (range.base - 1)).mpr ⟨area, hArea, by omega, by omega⟩
      unfold AddressRange.Contains at hContains
      have hNe : last ≠ range := by
        rintro rfl
        omega
      have hTouch : last.stop = range.base := by
        have hApart := h.wellFormed.before_or_before hLast hMem hNe
        unfold Before at hApart
        omega
      rw [← hTouch, AddressRange.stop, Nat.add_mul_mod_self_right]
      exact ih last.base (by omega) hLast rfl

theorem run_areas_aligned {ops : List Op} (run : Run Step Ledger.empty ops s) :
    ∀ area ∈ s.areas, area.1 % pageSize = 0 := by
  have hKept : ∀ s op t, (∀ area ∈ s.areas, area.1 % pageSize = 0) → Step s op t →
      ∀ area ∈ t.areas, area.1 % pageSize = 0 := by
    intro s op t h hStep
    cases hStep with
    | initializeArea hStart => exact forall_mem_cons.mpr ⟨hStart, h⟩
    | allocate => exact h
    | free => exact h
  exact run.invariant (fun area hArea => absurd hArea not_mem_nil) hKept

section OneArea

variable {s : Ledger} {start stop : Nat} {range : AddressRange}

/-- In an area that does not start at address 0 the live allocations are the used
ranges. -/
theorem Invariant.live_of_used (h : Invariant s) (hAreas : s.areas = [(start, stop)])
    (hStart : start ≠ 0) (hMem : range ∈ s.pool)
    (hUsed : range.used = true) : (range.base, range.pages) ∈ s.live := by
  have hBase := (h.inside hAreas hMem).1
  exact (h.live_iff _ _).mpr ⟨by omega, range, mem_filter.mpr ⟨hMem, hUsed⟩, rfl, rfl⟩

theorem Invariant.free_range (h : Invariant s) (hMem : range ∈ s.pool)
    (hUsed : range.used = false) : s.FreePages range.base range.pages := by
  rintro address hLow hHigh ⟨base, pages⟩ hLive ⟨hEntryLow, hEntryHigh⟩
  obtain ⟨-, other, hOther, rfl, rfl⟩ := (h.live_iff base pages).mp hLive
  obtain ⟨hOther, hOtherUsed⟩ := mem_filter.mp hOther
  have hNe : range ≠ other := by
    rintro rfl
    rw [hUsed] at hOtherUsed
    cases hOtherUsed
  have hApart := h.wellFormed.before_or_before hMem hOther hNe
  unfold Before AddressRange.stop at hApart
  dsimp only at hEntryLow hEntryHigh
  omega

/-- Free pages that follow one another lie in one free range. -/
theorem Invariant.range_of_free (h : Invariant s) (hAreas : s.areas = [(start, stop)])
    (hStart : start ≠ 0) {base pages : Nat} (hPages : 1 ≤ pages) (hLow : start ≤ base)
    (hHigh : base + pages * pageSize ≤ stop) (hFree : s.FreePages base pages) :
    ∃ range ∈ s.pool, range.used = false ∧ range.base ≤ base ∧
      base + pages * pageSize ≤ range.stop := by
  have hSize : 1 * pageSize ≤ pages * pageSize := Nat.mul_le_mul_right _ hPages
  have hUnused : ∀ range ∈ s.pool, ∀ address, range.Contains address → base ≤ address →
      address < base + pages * pageSize → range.used = false := by
    intro range hMem address hContains hAddress hEnd
    by_contra hUsed
    rw [Bool.not_eq_false] at hUsed
    exact hFree address hAddress hEnd _ (h.live_of_used hAreas hStart hMem hUsed) hContains
  have hPage : 0 < pageSize := by decide
  obtain ⟨range, hMem, hContains⟩ := (h.contains_iff hAreas base).mpr ⟨hLow, by omega⟩
  have hRange := hUnused range hMem base hContains le_rfl (by omega)
  refine ⟨range, hMem, hRange, hContains.1, ?_⟩
  -- otherwise the range behind it would be free as well and begin where it ends
  by_contra hShort
  have hBehind := hContains.2
  obtain ⟨next, hNext, hNextContains⟩ :=
    (h.contains_iff hAreas range.stop).mpr ⟨by omega, by omega⟩
  have hNextFree := hUnused next hNext range.stop hNextContains (by omega) (by omega)
  have hNe : range ≠ next := by
    rintro rfl
    exact absurd hNextContains.2 (lt_irrefl _)
  have hTouch : range.stop = next.base := by
    have hNextBase := hNextContains.1
    rcases h.wellFormed.before_or_before hMem hNext hNe with hBefore | hBefore
    · exact le_antisymm hBefore hNextBase
    · have hLt := (h.wellFormed.sound range hMem).base_lt_stop
      have hNextStop := hNextContains.2
      unfold Before at hBefore
      omega
  have hMerged := h.wellFormed.mergeable_of_touch hMem hNext hTouch
  have hMergeable : mergeable range next = true :=
    (mergeable_iff (h.wellFormed.sound range hMem)).mpr ⟨hRange, hNextFree, hTouch⟩
  rw [hMerged] at hMergeable
  cases hMergeable

end OneArea

/-- In a pool with one area that does not start at address 0, an allocation fails
exactly when the area has no free pages in a row for it. -/
theorem allocate_eq_zero_iff {ops : List Op} {s : Ledger} (run : Run Step Ledger.empty ops s)
    {start stop : Nat} (hAreas : s.areas = [(start, stop)]) (hStart : start ≠ 0)
    {requestedPages : Nat} (hPages : 1 ≤ requestedPages) (flags : Nat) :
    (allocate s.pool requestedPages flags).1 = 0 ↔
      ¬ ∃ base, base % pageSize = 0 ∧ start ≤ base ∧ base + requestedPages * pageSize ≤ stop ∧
        s.FreePages base requestedPages := by
  have h := run_invariant run
  have hZero : (allocate s.pool requestedPages flags).1 = 0 ↔
      allocateFrom requestedPages flags s.pool = none := by
    unfold allocate
    rw [if_neg (by omega)]
    cases hFrom : allocateFrom requestedPages flags s.pool with
    | none => simp
    | some served =>
      obtain ⟨base, result⟩ := served
      obtain ⟨before, range, after, hPool, -, -, rfl, -⟩ := allocateFrom_eq_some hFrom
      have hMem : range ∈ s.pool := by simp [hPool]
      have hBase := (h.inside hAreas hMem).1
      simp only [Option.getD_some, reduceCtorEq, iff_false]
      omega
  rw [hZero, allocateFrom_eq_none_iff]
  constructor
  · rintro hSmall ⟨base, -, hLow, hHigh, hFree⟩
    obtain ⟨range, hMem, hUsed, hBase, hStop⟩ :=
      h.range_of_free hAreas hStart hPages hLow hHigh hFree
    have hLt := hSmall range hMem hUsed
    have hLe : (range.pages + 1) * pageSize ≤ requestedPages * pageSize :=
      Nat.mul_le_mul_right _ hLt
    have hPage : 0 < pageSize := by decide
    rw [Nat.add_mul] at hLe
    unfold AddressRange.stop at hStop
    omega
  · intro hNone range hMem hUsed
    by_contra hLarge
    have hLe : requestedPages * pageSize ≤ range.pages * pageSize :=
      Nat.mul_le_mul_right _ (Nat.not_lt.mp hLarge)
    obtain ⟨hLow, hHigh⟩ := h.inside hAreas hMem
    unfold AddressRange.stop at hHigh
    refine hNone ⟨range.base, h.aligned (run_areas_aligned run) hMem, hLow, by omega, ?_⟩
    intro address hAddress hEnd
    exact h.free_range hMem hUsed address hAddress (by omega)

/-- Of four pages the third is in use, so there are three free ones but no three in a
row. -/
theorem allocate_eq_zero_iff_three_pages :
    ∃ s, Run Step Ledger.empty [.initializeArea 0xA0000000 0xA0004000, .allocate 2 0,
        .allocate 1 0, .free 0xA0000000] s ∧
      s.live = [(0xA0002000, 1)] ∧
      ¬ ∃ base, base % pageSize = 0 ∧ 0xA0000000 ≤ base ∧ base + 3 * pageSize ≤ 0xA0004000 ∧
        s.FreePages base 3 := by
  have hInitialize : Step Ledger.empty (.initializeArea 0xA0000000 0xA0004000) _ :=
    Step.initializeArea (by decide) (by decide) (by decide) (by decide) (by decide)
  have run := (((Run.single hInitialize).snoc (@Step.allocate _ 2 0 _ _ (by decide) rfl)).snoc
    (@Step.allocate _ 1 0 _ _ (by decide) rfl)).snoc (@Step.free _ 0xA0000000 _ _ rfl)
  refine ⟨_, run, rfl, ?_⟩
  exact (allocate_eq_zero_iff run rfl (by decide) (by decide) 0).mp rfl

end Kernel.AddressRangePool
