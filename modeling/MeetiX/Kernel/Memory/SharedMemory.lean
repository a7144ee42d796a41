import MeetiX.Kernel.Memory.VirtualRanges

/-! What a process gets when another one shares memory with it. -/
namespace Kernel.Memory

open Base

variable {pool : AddressRangePool.Pool} {requestedPages flags base size p memory processID space page target : Nat}
  {s t : Memory}

theorem RangesOk.inside (h : RangesOk pool)
    {range : AddressRangePool.AddressRange} (hMem : range ∈ pool) :
    userVirtualRangesStart ≤ range.base ∧ range.stop ≤ kernelAreaStart := by
  obtain ⟨live, hInv⟩ := h
  exact hInv.inside rfl hMem

theorem RangesOk.allocated {result : AddressRangePool.Pool} (h : RangesOk pool)
    (hAllocate : AddressRangePool.allocate pool requestedPages flags = (base, result)) (hBase : base ≠ 0) :
    ∃ range ∈ result, range.used = true ∧ range.base = base ∧
      range.pages = (if requestedPages = 0 then 1 else requestedPages) ∧
      userVirtualRangesStart ≤ base ∧ range.stop ≤ kernelAreaStart := by
  have hOk := h.allocate requestedPages flags
  rw [hAllocate] at hOk
  obtain ⟨live, hInv⟩ := h
  have hResult := hInv.allocate hAllocate
  simp only [hBase, if_false] at hResult
  obtain ⟨-, range, hMem, rfl, hPages⟩ := (hResult.live_iff base _).mp (List.mem_cons_self ..)
  obtain ⟨hMem, hUsed⟩ := List.mem_filter.mp hMem
  obtain ⟨hLow, hHigh⟩ := hOk.inside hMem
  exact ⟨range, hMem, hUsed, rfl, hPages, hLow, hHigh⟩

theorem RangesOk.eq_of_base (h : RangesOk pool)
    {a b : AddressRangePool.AddressRange} (ha : a ∈ pool) (hb : b ∈ pool) (hBase : a.base = b.base) :
    a = b := by
  obtain ⟨live, hInv⟩ := h
  exact hInv.wellFormed.eq_of_base ha hb hBase

theorem Tabled.entry_eq (h : Tabled s space page t) (hLayout : Layout s)
    (p other : Nat) : t.entry p other = s.entry p other := by
  cases h with
  | present => rfl
  | created hTable =>
    rw [entry_addTable]
    split
    · rename_i hSame
      obtain ⟨rfl, hHigh, hEq⟩ := hSame
      refine (hLayout.tables p other ?_).symm
      simp only [Memory.hasTable, Bool.or_eq_false_iff, decide_eq_false_iff_not] at hTable ⊢
      exact ⟨by omega, by rw [hEq]; exact hTable.2⟩
    · rfl

theorem Tabled.ranges_eq (h : Tabled s space page t) (p : Nat) :
    (t.processes p).virtualRanges = (s.processes p).virtualRanges := by
  cases h with
  | present => rfl
  | created =>
    by_cases hp : p = space
    · subst hp
      simp [addTable]
    · simp [addTable, hp]

theorem ranges_setEntry (m : Memory) (space page : Nat) (value : Option PageEntry) (p : Nat) :
    ((m.setEntry space page value).processes p).virtualRanges = (m.processes p).virtualRanges := by
  unfold setEntry
  split
  · rfl
  · by_cases hp : p = space
    · subst hp
      simp
    · simp [hp]

def sharedPages (size : Nat) : Nat := (size + (pageSize - 1)) / pageSize

/-- What sharing is for: the target sees the physical pages of the caller, in
order, and gets nothing else. A page that was mapped already in the target
stays what it was. -/
structure Shares (s t : Memory) (caller target memory size base : Nat) : Prop where
  covers : ∃ range ∈ (t.processes target).virtualRanges,
    range.used = true ∧ range.base = base ∧ size ≤ range.pages * pageSize
  below : ∀ i < sharedPages size, memory + i * pageSize < kernelAreaStart
  backed : ∀ i < sharedPages size, ∃ e, s.entry caller (memory / pageSize + i) = some e ∧
    t.entry target (base / pageSize + i) =
      some ((s.entry target (base / pageSize + i)).getD ⟨e.frame, true⟩)
  only : ∀ p page, t.entry p page ≠ s.entry p page →
    p = target ∧ ∃ i < sharedPages size, page = base / pageSize + i ∧
      ∃ e f, s.entry caller (memory / pageSize + i) = some e ∧ t.entry p page = some f ∧
        f.frame = e.frame

theorem pages_eq_sharedPages (h : size ≤ 0xFFFFF000) :
    pageAlignUp size / pageSize = sharedPages size := by
  unfold sharedPages pageAlignUp pageAlignDown wrap32 wordSize pageSize
  split
  · omega
  · rw [Nat.mod_eq_of_lt (by omega)]
    omega

/-- Nothing is left of a size that is rounded up beyond the address space. -/
theorem pages_eq_zero (h : 0xFFFFF000 < size) (hWord : size < wordSize) :
    pageAlignUp size / pageSize = 0 := by
  unfold pageAlignUp pageAlignDown wrap32 pageSize
  unfold wordSize at *
  rw [if_neg (by omega), show size - size % 0x1000 + 0x1000 = 2 ^ 32 by omega]
  rfl

theorem pageAddress_eq {i : Nat} (h : base + i * pageSize < wordSize) :
    pageAddress base i = base + i * pageSize := by
  unfold pageAddress
  rw [wrap32_of_lt (by omega : i * pageSize < wordSize), wrap32_of_lt h]

theorem page_add (base i : Nat) : (base + i * pageSize) / pageSize = base / pageSize + i :=
  Nat.add_mul_div_right base i (by decide)

theorem sharePage_returns {a b : Memory} (hLayout : Layout a) {virtualAddr targetAddr : Nat}
    {value : Unit} (hUser : virtualAddr < kernelAreaStart)
    (hRun : (sharePage p virtualAddr target targetAddr).run a = .ok value b) :
    (∀ q, (b.processes q).virtualRanges = (a.processes q).virtualRanges) ∧
      ∀ q page, b.entry q page =
        if page = targetAddr / pageSize ∧ (targetAddr / pageSize < tableEntries ∨ q = target) ∧
            a.entry target (targetAddr / pageSize) = none then
          some ⟨(a.entry p (virtualAddr / pageSize)).elim 0 PageEntry.frame, true⟩
        else a.entry q page := by
  unfold sharePage at hRun
  obtain ⟨phys, middle, hPhysical, hRun⟩ := bind_returns_iff.mp hRun
  obtain ⟨rfl, frame, rfl, hFrame⟩ := AddressSpace.virtualToPhysical_spec.of_returns hPhysical
  obtain ⟨-, rfl⟩ := hFrame hUser
  obtain ⟨mapped, after, hMap, hRun⟩ := bind_returns_iff.mp hRun
  cases hRun
  obtain ⟨-, -, -, u, hTabled, rfl⟩ := AddressSpace.map_spec.of_returns hMap
  have hSame := hTabled.entry_eq hLayout
  rw [Nat.mul_div_cancel _ (by decide : 0 < pageSize), Bool.or_false, hSame]
  constructor
  · intro q
    split
    · rw [ranges_setEntry, hTabled.ranges_eq]
    · exact hTabled.ranges_eq q
  · intro q page
    cases hEntry : middle.entry target (targetAddr / pageSize) with
    | none => simp [entry_setEntry, hSame]
    | some e => simp [hSame]

section Loop

variable (s : Memory) (caller target : Nat) (source base : Nat)

/-- The entries after `done` rounds of the loop, for pages of the caller that
are mapped. -/
def sharedEntry (done p page : Nat) : Option PageEntry :=
  if p = target ∧ base ≤ page ∧ page < base + done then
    some ((s.entry target page).getD
      ⟨(s.entry caller (source + (page - base))).elim 0 PageEntry.frame, true⟩)
  else s.entry p page

variable {s caller target source base} {done : Nat}

/-- A page of the caller that is mapped is never changed. -/
theorem sharedEntry_source {page : Nat} (hMapped : (s.entry caller page).isSome = true) :
    sharedEntry s caller target source base done caller page = s.entry caller page := by
  unfold sharedEntry
  split
  · rename_i hTarget
    obtain ⟨rfl, -, -⟩ := hTarget
    obtain ⟨e, hEntry⟩ := Option.isSome_iff_exists.mp hMapped
    simp [hEntry]
  · rfl

theorem sharedEntry_succ
    (hMapped : (s.entry caller (source + done)).isSome = true) (hHigh : tableEntries ≤ base) (p page : Nat) :
    sharedEntry s caller target source base (done + 1) p page =
      if page = base + done ∧ (base + done < tableEntries ∨ p = target) ∧
          sharedEntry s caller target source base done target (base + done) = none then
        some ⟨(sharedEntry s caller target source base done caller (source + done)).elim 0
          PageEntry.frame, true⟩
      else sharedEntry s caller target source base done p page := by
  rw [sharedEntry_source hMapped]
  have hNew : sharedEntry s caller target source base done target (base + done) =
      s.entry target (base + done) := by
    simp [sharedEntry]
  rw [hNew]
  by_cases hPage : page = base + done
  · subst hPage
    by_cases hp : p = target
    · subst hp
      cases hEntry : s.entry p (base + done) <;> simp [sharedEntry, hEntry]
    · have hLow : ¬base + done < tableEntries := by omega
      simp [sharedEntry, hp, hLow]
  · have hRange : (page < base + (done + 1)) ↔ (page < base + done) := by omega
    simp [sharedEntry, hPage, hRange]

end Loop

theorem allocateRange_returns (h : (allocateRange p requestedPages flags).run s = .ok base t) :
    ∃ pool, AddressRangePool.allocate (s.processes p).virtualRanges requestedPages flags = (base, pool) ∧
      t = s.modifyProcess p (Process.setRanges pool) := by
  cases h
  exact ⟨_, rfl, rfl⟩

/-- The loop of the call once the range of the target is known. -/
def shareLoop (p memory target base pages : Nat) : Action PUnit :=
  loop (fun i => sharePage p (pageAddress memory i) target (pageAddress base i)) (List.range pages)

/-- The test of the call. -/
abbrev ShareTest (memory size : Nat) : Prop :=
  memory < kernelAreaStart ∧
    wrap32 (memory + wrap32 (pageAlignUp size / pageSize * pageSize)) ≤ kernelAreaStart

/-- Without a failed test the call is an allocation in the target, then the
loop. -/
theorem shareMem_cases (s : Memory) (p memory size processID : Nat) :
    (shareMem p memory size processID).run s = .ok 0 s ∨
      ShareTest memory size ∧ ∃ thread, s.threads processID = some thread ∧
        (shareMem p memory size processID).run s =
          (allocateRange thread.process (pageAlignUp size / pageSize) rangeFlagNone >>= fun base =>
            if base = 0 then pure 0
            else shareLoop p memory thread.process base (pageAlignUp size / pageSize) >>= fun _ =>
              pure base).run s := by
  unfold shareMem
  by_cases hTest : ShareTest memory size
  · simp only [hTest, and_self, if_true]
    rw [run_get_bind]
    cases hThread : s.threads processID with
    | none => exact .inl rfl
    | some thread => exact .inr ⟨hTest, thread, rfl, rfl⟩
  · simp only [hTest, if_false]
    exact .inl rfl

/-- A call that hands out an address has passed the test, taken a range of the
target and run its loop to the end. -/
theorem shareMem_returns
    (hRun : (shareMem p memory size processID).run s = .ok base t) (hBase : base ≠ 0) :
    ShareTest memory size ∧
      ∃ thread pool, s.threads processID = some thread ∧
        AddressRangePool.allocate (s.processes thread.process).virtualRanges
          (pageAlignUp size / pageSize) rangeFlagNone = (base, pool) ∧
        (shareLoop p memory thread.process base (pageAlignUp size / pageSize)).run
            (s.modifyProcess thread.process (Process.setRanges pool)) = .ok PUnit.unit t := by
  rcases shareMem_cases s p memory size processID with hFailed | ⟨hTest, thread, hThread, hCall⟩
  · rw [hFailed] at hRun
    cases hRun
    exact absurd rfl hBase
  · rw [hCall] at hRun
    obtain ⟨found, middle, hRange, hRun⟩ := bind_returns_iff.mp hRun
    obtain ⟨pool, hAllocate, rfl⟩ := allocateRange_returns hRange
    split at hRun
    · cases hRun
      exact absurd rfl hBase
    · obtain ⟨_, after, hLoop, hRun⟩ := bind_returns_iff.mp hRun
      cases hRun
      exact ⟨hTest, thread, pool, hThread, hAllocate, hLoop⟩

theorem Layout.setRanges {m : Memory} (h : Layout m)
    (hAllocate : AddressRangePool.allocate (m.processes p).virtualRanges requestedPages flags =
      (base, pool)) : Layout (m.modifyProcess p (Process.setRanges pool)) := by
  refine h.modifyProcess p (Process.setRanges pool) ?_ (fun _ => rfl) fun _ => rfl
  have hPool := (h.ranges p).allocate requestedPages flags
  rwa [hAllocate] at hPool

theorem entry_setRanges (m : Memory) (p : Nat) (pool : AddressRangePool.Pool) (q page : Nat) :
    (m.modifyProcess p (Process.setRanges pool)).entry q page = m.entry q page := by
  apply entry_of_pages
  · rfl
  · intro r
    by_cases hr : r = p
    · subst hr
      simp [Process.setRanges]
    · simp [hr]

/-- The loop of a call whose pages are all mapped by the caller. -/
theorem sharing_loop {start : Memory} {caller pages : Nat}
    (hStart : Layout start) (hEntries : ∀ p page, start.entry p page = s.entry p page)
    (hMemory : memory + pages * pageSize ≤ kernelAreaStart)
    (hLow : userVirtualRangesStart ≤ base) (hHigh : base + pages * pageSize ≤ kernelAreaStart)
    (hMapped : ∀ i < pages, (s.entry caller (memory / pageSize + i)).isSome = true)
    (hLoop : (shareLoop caller memory target base pages).run start = .ok PUnit.unit t) :
    (∀ p, (t.processes p).virtualRanges = (start.processes p).virtualRanges) ∧
      ∀ p page, t.entry p page =
        sharedEntry s caller target (memory / pageSize) (base / pageSize) pages p page := by
  unfold shareLoop at hLoop
  rw [List.range_eq_range'] at hLoop
  have hTable : tableEntries ≤ base / pageSize := by
    unfold userVirtualRangesStart at hLow
    unfold tableEntries pageSize
    omega
  have hEnd := loop_returns
    (fun done a => Layout a ∧
      (∀ p, (a.processes p).virtualRanges = (start.processes p).virtualRanges) ∧
      ∀ p page, a.entry p page =
        sharedEntry s caller target (memory / pageSize) (base / pageSize) done p page)
    ⟨hStart, fun _ => rfl, fun p page => by simp [sharedEntry, hEntries]⟩ ?_ hLoop
  · rw [Nat.zero_add] at hEnd
    exact hEnd.2
  · rintro i a b - hi ⟨hLayout, hRanges, hEntry⟩ hBody
    rw [Nat.zero_add] at hi
    unfold kernelAreaStart at hMemory hHigh
    have hSource : memory + i * pageSize < wordSize := by
      unfold pageSize wordSize at *
      omega
    have hTarget : base + i * pageSize < wordSize := by
      unfold pageSize wordSize at *
      omega
    rw [pageAddress_eq hSource, pageAddress_eq hTarget] at hBody
    have hUser : memory + i * pageSize < kernelAreaStart := by
      unfold pageSize kernelAreaStart at *
      omega
    obtain ⟨hSame, hNext⟩ := sharePage_returns hLayout hUser hBody
    refine ⟨Keeps.of_returns hLayout hBody, fun p => (hSame p).trans (hRanges p), fun p page => ?_⟩
    rw [hNext, page_add, page_add, sharedEntry_succ (hMapped i hi) hTable]
    simp only [hEntry]

section Bounds

variable {s : Memory} {memory size target base : Nat} {pool : AddressRangePool.Pool}

/-- The pages of a call that gets a range fit into the area of the ranges, so
the test was made without overflow. -/
theorem share_inside (hLayout : Layout s) (hBase : base ≠ 0)
    (hAllocate : AddressRangePool.allocate (s.processes target).virtualRanges
      (pageAlignUp size / pageSize) rangeFlagNone = (base, pool))
    (hTest : ShareTest memory size) :
    userVirtualRangesStart ≤ base ∧
      base + pageAlignUp size / pageSize * pageSize ≤ kernelAreaStart ∧
      memory + pageAlignUp size / pageSize * pageSize ≤ kernelAreaStart := by
  obtain ⟨range, hMem, hUsed, hRange, hPages, hLow, hStop⟩ :=
    (hLayout.ranges target).allocated hAllocate hBase
  obtain ⟨hMemory, hTest⟩ := hTest
  generalize pageAlignUp size / pageSize = pages at *
  have hHigh : base + pages * pageSize ≤ kernelAreaStart := by
    rw [← hRange]
    refine le_trans (Nat.add_le_add_left (Nat.mul_le_mul_right _ ?_) _) hStop
    rw [hPages]
    split
    · omega
    · exact le_refl _
  refine ⟨hLow, hHigh, ?_⟩
  have hSum : memory + pages * pageSize < wordSize := by
    unfold wordSize userVirtualRangesStart kernelAreaStart at *
    omega
  rwa [wrap32_of_lt (by omega : pages * pageSize < wordSize), wrap32_of_lt hSum] at hTest

end Bounds

section Call

variable {s t : Memory} {caller target memory size base : Nat} {pool : AddressRangePool.Pool}
  (hLayout : Layout s) (hWord : size < wordSize) (hBase : base ≠ 0)
  (hAllocate : AddressRangePool.allocate (s.processes target).virtualRanges
    (pageAlignUp size / pageSize) rangeFlagNone = (base, pool))
  (hLoop : (shareLoop caller memory target base (pageAlignUp size / pageSize)).run
    (s.modifyProcess target (Process.setRanges pool)) = .ok PUnit.unit t)

include hLayout hWord hBase hAllocate hLoop in
/-- A size without pages gets a range of one page, and that is not enough. -/
theorem Shares.size_le (h : Shares s t caller target memory size base) : size ≤ 0xFFFFF000 := by
  by_contra hLarge
  obtain ⟨range, hMem, -, hRange, hPages, -, -⟩ := (hLayout.ranges target).allocated hAllocate hBase
  obtain ⟨found, hFound, -, hFoundBase, hCovers⟩ := h.covers
  have hStart := hLayout.setRanges hAllocate
  rw [pages_eq_zero (by omega) hWord] at hLoop hPages
  cases hLoop
  have hFound' : found ∈ pool := by simpa [Process.setRanges] using hFound
  have hPool : RangesOk pool := by simpa [Process.setRanges] using hStart.ranges target
  rw [hPool.eq_of_base hFound' hMem (hFoundBase.trans hRange.symm), hPages] at hCovers
  simp only [if_true, pageSize] at hCovers
  omega

include hLayout hBase hAllocate hLoop in
/-- Pages that are all mapped are all shared. -/
theorem shares_of_mapped (hTest : ShareTest memory size) (hSize : size ≤ 0xFFFFF000)
    (hMapped : ∀ i < sharedPages size, (s.entry caller (memory / pageSize + i)).isSome = true) :
    Shares s t caller target memory size base := by
  obtain ⟨range, hMem, hUsed, hRange, hPages, hLow, hStop⟩ :=
    (hLayout.ranges target).allocated hAllocate hBase
  have hStart := hLayout.setRanges hAllocate
  obtain ⟨-, hHigh, hInside⟩ := share_inside hLayout hBase hAllocate hTest
  rw [pages_eq_sharedPages hSize] at hLoop hPages hHigh hInside
  obtain ⟨hRanges, hEntries⟩ := sharing_loop hStart (entry_setRanges s target pool) hInside hLow
    hHigh hMapped hLoop
  refine ⟨⟨range, ?_, hUsed, hRange, ?_⟩, fun i hi => ?_, fun i hi => ?_, fun p page hChanged => ?_⟩
  · rw [hRanges]
    simpa [Process.setRanges] using hMem
  · rw [hPages]
    unfold sharedPages pageSize at *
    split
    · omega
    · omega
  · have hLess : i * pageSize + pageSize ≤ sharedPages size * pageSize := by
      rw [← Nat.succ_mul]
      exact Nat.mul_le_mul_right _ hi
    unfold pageSize at *
    omega
  · obtain ⟨e, hEntry⟩ := Option.isSome_iff_exists.mp (hMapped i hi)
    refine ⟨e, hEntry, ?_⟩
    rw [hEntries]
    simp [sharedEntry, hi, hEntry]
  · rw [hEntries] at hChanged
    by_cases hNew : p = target ∧ base / pageSize ≤ page ∧ page < base / pageSize + sharedPages size
    · obtain ⟨rfl, hFirst, hLast⟩ := hNew
      refine ⟨rfl, page - base / pageSize, by omega, by omega, ?_⟩
      obtain ⟨e, hEntry⟩ := Option.isSome_iff_exists.mp (hMapped (page - base / pageSize) (by omega))
      refine ⟨e, ⟨e.frame, true⟩, hEntry, ?_, rfl⟩
      cases hOld : s.entry p page with
      | none =>
        rw [hEntries]
        simp [sharedEntry, hFirst, hLast, hEntry, hOld]
      | some old =>
        refine absurd ?_ hChanged
        simp [sharedEntry, hFirst, hLast, hOld]
    · exact absurd (by simp only [sharedEntry, hNew, if_false]) hChanged

end Call

/-- In every state that the system can reach, a call that hands out an address
does what sharing is for exactly when its size is not rounded up beyond the
address space and the caller has mapped all of the pages it names. -/
theorem shareMem_shares_iff {isFree : Nat → Bool} {freePageCount : Nat} {contents : Nat → Nat → UInt8}
    {kernelPages : Nat → Option Nat} {kernelRanges : AddressRangePool.Pool} {events : List Event}
    {s t : Memory} (run : Run Step (boot isFree freePageCount contents kernelPages kernelRanges) events s)
    {caller processID memory size base : Nat} {target : Thread} (hTarget : s.threads processID = some target)
    (hWord : size < wordSize) (hRun : (shareMem caller memory size processID).run s = .ok base t)
    (hBase : base ≠ 0) :
    Shares s t caller target.process memory size base ↔
      size ≤ 0xFFFFF000 ∧
        ∀ i < sharedPages size, (s.entry caller (memory / pageSize + i)).isSome = true := by
  have hLayout : Layout s := run_layout run (boot_layout _ _ _ _ _)
  obtain ⟨hTest, thread, pool, hThread, hAllocate, hLoop⟩ := shareMem_returns hRun hBase
  rw [hTarget] at hThread
  cases hThread
  constructor
  · intro h
    refine ⟨h.size_le hLayout hWord hBase hAllocate hLoop, fun i hi => ?_⟩
    obtain ⟨e, hEntry, -⟩ := h.backed i hi
    simp [hEntry]
  · rintro ⟨hSize, hMapped⟩
    exact shares_of_mapped hLayout hBase hAllocate hLoop hTest hSize hMapped

/-- Two processes, one of which has allocated a page. -/
def pageAllocated : List Event :=
  [.spawn 2 smallImage none, .spawn 2 smallImage none, .allocMem 0 0x1000]

/-- A process that shares its allocated page with another one. -/
theorem shareMem_shares_iff_allocated :
    ∃ t, (shareMem 0 0xA0010000 0x1000 1).run (reached pageAllocated) = .ok 0xA0010000 t ∧
      Shares (reached pageAllocated) t 0 1 0xA0010000 0x1000 0xA0010000 := by
  have hRun : Run Step smallMachine pageAllocated _ := run_reached (by decide +kernel)
  have hCall : (shareMem 0 0xA0010000 0x1000 1).run (reached pageAllocated) = .ok 0xA0010000 _ :=
    eq_ok_of_returned (by decide +kernel)
  have hThread : (reached pageAllocated).threads 1 =
      some ⟨1, true, 0xF0001000, 0xA000F000, 1⟩ := by
    decide +kernel
  exact ⟨_, hCall, (shareMem_shares_iff hRun hThread (by decide) hCall (by decide)).mpr
    ⟨by decide, by decide +kernel⟩⟩

def twoSpawned : List Event := [.spawn 2 smallImage none, .spawn 2 smallImage none]

/-- A process shares a page that it has not mapped. The call succeeds, and the
other process can write to the first physical page of the machine. -/
theorem shareMem_gives_first_frame : Run Step smallMachine twoSpawned (reached twoSpawned) ∧
      (reached twoSpawned).entry 0 0xA0000 = none ∧
      ∃ t, (shareMem 0 0xA0000000 0x1000 1).run (reached twoSpawned) = .ok 0xA0010000 t ∧
        t.entry 1 0xA0010 = some ⟨0, true⟩ ∧
        ¬Shares (reached twoSpawned) t 0 1 0xA0000000 0x1000 0xA0010000 := by
  have hEmpty : (reached twoSpawned).entry 0 0xA0000 = none := by decide +kernel
  refine ⟨run_reached (by decide +kernel), hEmpty, _, eq_ok_of_returned (by decide +kernel),
    by decide +kernel, fun h => ?_⟩
  obtain ⟨e, hEntry, -⟩ := h.backed 0 (by decide)
  have hSome : (reached twoSpawned).entry 0 0xA0000 = some e := hEntry
  rw [hEmpty] at hSome
  cases hSome

end Kernel.Memory
