import MeetiX.Kernel.Memory.SharedMemory

/-! Unmapping an address at which no range is in use. The system call takes the range with that
base, in use or not, so it acts on what is left of earlier ranges. -/
namespace Kernel.Memory

open Base

/-- Nothing of what a process or the allocator can see has changed. -/
structure Untouched (s t : Memory) : Prop where
  bitmap : t.isFree = s.isFree
  freePages : t.freePageCount = s.freePageCount
  entries : ∀ p page, t.entry p page = s.entry p page
  tables : ∀ p page, t.hasTable p page = s.hasTable p page
  ranges : ∀ p, (t.processes p).virtualRanges = (s.processes p).virtualRanges

theorem Untouched.refl (s : Memory) : Untouched s s :=
  ⟨rfl, rfl, fun _ _ => rfl, fun _ _ => rfl, fun _ => rfl⟩

/-- The range with the base that the list still has, if any, was not one of a
physical owner, and nothing is mapped in it. -/
def Harmless (s : Memory) (p virtualBase : Nat) : Prop :=
  ∀ range, findRange p virtualBase s = some range →
    range.flags &&& rangeFlagPhysicalOwner = 0 ∧
      ∀ i < range.pages, s.entry p (range.base / pageSize + i) = none

def InUse (s : Memory) (p virtualBase : Nat) : Prop :=
  ∃ range ∈ (s.processes p).virtualRanges, range.used = true ∧ range.base = virtualBase

/-- The loops of the call for the range that was found. -/
def unmapLoop (p base pages : Nat) : Action PUnit :=
  loop (fun i => AddressSpace.unmap p (pageAddress base i)) (List.range pages)

def freeLoop (p base pages : Nat) : Action PUnit :=
  loop (fun i => freePage p (pageAddress base i)) (List.range pages)

variable {s : Memory} {p virtualBase : Nat}

theorem run_unmap_of_none (h : findRange p virtualBase s = none) :
    (unmap p virtualBase).run s = .ok () s := by
  unfold unmap
  rw [run_get_bind, h]
  rfl

theorem unmap_of_some {range : AddressRangePool.AddressRange}
    (h : findRange p virtualBase s = some range) :
    (unmap p virtualBase).run s =
      (if range.flags &&& rangeFlagPhysicalOwner ≠ 0 then
        freeLoop p range.base range.pages >>= fun _ =>
          unmapLoop p range.base range.pages >>= fun _ => freeRange p range.base
      else unmapLoop p range.base range.pages >>= fun _ => freeRange p range.base).run s := by
  unfold unmap
  rw [run_get_bind, h]
  rfl

theorem unmap_unmapped {virtualAddress : Nat} (h : s.entry p (virtualAddress / pageSize) = none) :
    (AddressSpace.unmap p virtualAddress).run s = .ok () s := by
  have hSame : s.setEntry p (virtualAddress / pageSize) none = s := by
    unfold setEntry
    unfold entry at h
    split
    · rename_i hLow
      rw [if_pos hLow] at h
      rw [← h, Function.update_eq_self]
    · rename_i hLow
      rw [if_neg hLow] at h
      apply modifyProcess_eq_self
      rw [← h, Function.update_eq_self]
  change EStateM.Result.ok () (if s.hasTable p (virtualAddress / pageSize) then _ else s) = _
  rw [hSame, ite_self]

/-- A base that is not in use is not freed. -/
theorem freeRange_stale {base : Nat} (h : ¬InUse s p base) :
    (freeRange p base).run s = .ok () s := by
  have hPool : (AddressRangePool.free (s.processes p).virtualRanges base).elim
      (s.processes p).virtualRanges Prod.snd = (s.processes p).virtualRanges := by
    by_cases hNil : (s.processes p).virtualRanges = []
    · rw [hNil]
      rfl
    · rw [AddressRangePool.free_of_not_used hNil h]
      rfl
  have hSame : (s.modifyProcess p fun q => q.setRanges
      ((AddressRangePool.free q.virtualRanges base).elim q.virtualRanges Prod.snd)) = s := by
    apply modifyProcess_eq_self
    rw [hPool]
    rfl
  exact congrArg (EStateM.Result.ok ()) hSame

section Found

variable {s t : Memory} {p base pages : Nat} {range : AddressRangePool.AddressRange}

theorem findRange_some {virtualBase : Nat} (h : findRange p virtualBase s = some range) :
    range ∈ (s.processes p).virtualRanges ∧ range.base = virtualBase := by
  refine ⟨List.mem_of_find?_eq_some h, ?_⟩
  simpa using List.find?_some h

theorem Layout.sound (hLayout : Layout s) (hMem : range ∈ (s.processes p).virtualRanges) : range.Sound := by
  obtain ⟨live, hInv⟩ := hLayout.ranges p
  exact hInv.wellFormed.sound range hMem

theorem page_of_range (hSound : range.Sound) {i : Nat} (hi : i < range.pages) :
    pageAddress range.base i / pageSize = range.base / pageSize + i := by
  have hStop := hSound.stop_lt
  unfold AddressRangePool.AddressRange.stop at hStop
  have hLess : i * pageSize ≤ range.pages * pageSize := Nat.mul_le_mul_right _ (le_of_lt hi)
  rw [pageAddress_eq (by omega), page_add]

/-- Each round adds one page to the free ones, in 32 bits. -/
theorem freeLoop_count (hRun : (freeLoop p base pages).run s = .ok PUnit.unit t) :
    wrap32 t.freePageCount = wrap32 (s.freePageCount + pages) := by
  unfold freeLoop at hRun
  rw [List.range_eq_range'] at hRun
  have hEnd := loop_returns
    (fun done a => wrap32 a.freePageCount = wrap32 (s.freePageCount + done)) rfl ?_ hRun
  · rwa [Nat.zero_add] at hEnd
  · intro i a b _ _ hCount hBody
    obtain ⟨phys, middle, hPhysical, hFree⟩ := bind_returns_iff.mp hBody
    obtain ⟨rfl, -⟩ := AddressSpace.virtualToPhysical_spec.of_returns hPhysical
    cases hFree
    change wrap32 (wrap32 (middle.freePageCount + 1)) = _
    unfold wrap32 wordSize at *
    omega

/-- The loop unmaps every page of the range and frees none. -/
theorem unmapLoop_returns (hLayout : Layout s)
    (hRun : (unmapLoop p base pages).run s = .ok PUnit.unit t) :
    t.freePageCount = s.freePageCount ∧
      ∀ i < pages, t.entry p (pageAddress base i / pageSize) = none := by
  unfold unmapLoop at hRun
  rw [List.range_eq_range'] at hRun
  have hEnd := loop_returns
    (fun done a => Layout a ∧ a.freePageCount = s.freePageCount ∧
      ∀ i < done, a.entry p (pageAddress base i / pageSize) = none)
    ⟨hLayout, rfl, fun i hi => absurd hi (by omega)⟩ ?_ hRun
  · rw [Nat.zero_add] at hEnd
    exact hEnd.2
  · rintro i a b - - ⟨hOld, hCount, hEmpty⟩ hBody
    refine ⟨Keeps.of_returns hOld hBody, ?_⟩
    rw [AddressSpace.unmap_returns hBody]
    by_cases hTable : a.hasTable p (pageAddress base i / pageSize) = true
    · rw [if_pos hTable]
      refine ⟨by simpa using hCount, fun j hj => ?_⟩
      rw [entry_setEntry]
      split
      · rfl
      · rename_i hOther
        have hNe : j ≠ i := by
          rintro rfl
          exact hOther ⟨rfl, .inr rfl⟩
        exact hEmpty j (by omega)
    · rw [if_neg hTable]
      rw [Bool.not_eq_true] at hTable
      refine ⟨hCount, fun j hj => ?_⟩
      rcases Nat.lt_succ_iff_lt_or_eq.mp hj with hj | rfl
      · exact hEmpty j hj
      · exact hOld.tables p _ hTable

end Found

section Stale

variable {s t : Memory} {p virtualBase : Nat} {range : AddressRangePool.AddressRange}

/-- A harmless range is passed over without any effect. -/
theorem Harmless.unmap_eq (hLayout : Layout s) (hStale : ¬InUse s p virtualBase)
    (h : Harmless s p virtualBase) : (unmap p virtualBase).run s = .ok () s := by
  cases hFind : findRange p virtualBase s with
  | none => exact run_unmap_of_none hFind
  | some range =>
    obtain ⟨hOwner, hEmpty⟩ := h range hFind
    obtain ⟨hMem, hBase⟩ := findRange_some hFind
    rw [unmap_of_some hFind, if_neg (by simp [hOwner])]
    refine bind_returns_iff.mpr ⟨PUnit.unit, s, ?_, ?_⟩
    · refine loop_of_fixed fun i hi => unmap_unmapped ?_
      rw [List.mem_range] at hi
      rw [page_of_range (hLayout.sound hMem) hi]
      exact hEmpty i hi
    · rw [hBase]
      exact freeRange_stale hStale

/-- The number of free pages gives an owner away. -/
theorem Untouched.not_owner (hLayout : Layout s) (hFind : findRange p virtualBase s = some range)
    (hRun : (unmap p virtualBase).run s = .ok () t) (h : Untouched s t) :
    range.flags &&& rangeFlagPhysicalOwner = 0 := by
  by_contra hOwner
  rw [unmap_of_some hFind, if_pos hOwner] at hRun
  obtain ⟨_, freed, hFree, hRun⟩ := bind_returns_iff.mp hRun
  obtain ⟨_, unmapped, hUnmap, hRange⟩ := bind_returns_iff.mp hRun
  have hCount := freeLoop_count hFree
  have hKeeps : Keeps Layout (freeLoop p range.base range.pages) := Ensures.forIn ..
  have hFreed : Layout freed := hKeeps.of_returns hLayout hFree
  obtain ⟨hSame, -⟩ := unmapLoop_returns hFreed hUnmap
  cases hRange
  have hEnd : unmapped.freePageCount = s.freePageCount := h.freePages
  have hSound := hLayout.sound (findRange_some hFind).1
  have hPos := hSound.pages_pos
  have hLess := hSound.pages_lt
  unfold wrap32 wordSize at hCount
  omega

theorem Untouched.unmapped (hLayout : Layout s) (hFind : findRange p virtualBase s = some range)
    (hOwner : range.flags &&& rangeFlagPhysicalOwner = 0)
    (hRun : (unmap p virtualBase).run s = .ok () t) (h : Untouched s t) {i : Nat} (hi : i < range.pages) :
    s.entry p (range.base / pageSize + i) = none := by
  rw [unmap_of_some hFind, if_neg (by simp [hOwner])] at hRun
  obtain ⟨_, unmapped, hUnmap, hRange⟩ := bind_returns_iff.mp hRun
  obtain ⟨-, hEmpty⟩ := unmapLoop_returns hLayout hUnmap
  have hEntry := hEmpty i hi
  rw [page_of_range (hLayout.sound (findRange_some hFind).1) hi] at hEntry
  rw [← h.entries, ← hEntry]
  cases hRange
  apply entry_of_pages
  · rfl
  · intro q
    by_cases hq : q = p
    · subst hq
      simp [Process.setRanges]
    · simp [hq]

end Stale

/-- In every state that the system can reach, unmapping a base that is not in use leaves
everything as it is exactly when no range with this base is left over in the list, or one that had
no physical owner and nothing mapped in it. -/
theorem stale_unmap_untouched_iff {isFree : Nat → Bool} {freePageCount : Nat}
    {contents : Nat → Nat → UInt8} {kernelPages : Nat → Option Nat}
    {kernelRanges : AddressRangePool.Pool} {events : List Event} {s : Memory}
    (run : Run Step (boot isFree freePageCount contents kernelPages kernelRanges) events s)
    {p virtualBase : Nat} (hStale : ¬InUse s p virtualBase) :
    (∃ t, (unmap p virtualBase).run s = .ok () t ∧ Untouched s t) ↔ Harmless s p virtualBase := by
  have hLayout : Layout s := run_layout run (boot_layout _ _ _ _ _)
  constructor
  · rintro ⟨t, hRun, hUntouched⟩ range hFind
    have hOwner := hUntouched.not_owner hLayout hFind hRun
    exact ⟨hOwner, fun i hi => hUntouched.unmapped hLayout hFind hOwner hRun hi⟩
  · intro hHarmless
    exact ⟨s, hHarmless.unmap_eq hLayout hStale, Untouched.refl s⟩

/-- A driver has mapped a device and unmapped it again. -/
def deviceUnmapped : List Event :=
  [.spawn 1 smallImage none, .mapMmio 0 0xFEC00000 0x1000, .allocMem 0 0x1000, .unmap 0 0xA0010000]

/-- A driver unmaps a device twice; the range of a device has no owner. -/
theorem stale_unmap_untouched_iff_device : ¬InUse (reached deviceUnmapped) 0 0xA0010000 ∧
      ∃ t, (unmap 0 0xA0010000).run (reached deviceUnmapped) = .ok () t ∧
        Untouched (reached deviceUnmapped) t := by
  have hRun : Run Step smallMachine deviceUnmapped _ := run_reached (by decide +kernel)
  have hFind : findRange 0 0xA0010000 (reached deviceUnmapped) =
      some ⟨false, 0xA0010000, 1, 0⟩ := by
    decide +kernel
  have hEmpty : (reached deviceUnmapped).entry 0 0xA0010 = none := by decide +kernel
  have hStale : ¬InUse (reached deviceUnmapped) 0 0xA0010000 := by
    unfold InUse
    decide +kernel
  refine ⟨hStale, (stale_unmap_untouched_iff hRun hStale).mpr fun range hRange => ?_⟩
  rw [hFind] at hRange
  cases hRange
  refine ⟨rfl, fun i hi => ?_⟩
  obtain rfl : i = 0 := by
    change i < 1 at hi
    omega
  exact hEmpty

/-- A process has allocated two pages and unmapped the first one. -/
def pageUnmapped : List Event :=
  [.spawn 2 smallImage none, .allocMem 0 0x1000, .allocMem 0 0x1000, .unmap 0 0xA0010000]

/-- A process unmaps its allocated page twice. The second call marks the first
physical page of the machine as free and counts it. -/
theorem second_unmap_frees_first_frame : Run Step smallMachine pageUnmapped (reached pageUnmapped) ∧
      ¬InUse (reached pageUnmapped) 0 0xA0010000 ∧
      ∃ t, (unmap 0 0xA0010000).run (reached pageUnmapped) = .ok () t ∧
        (reached pageUnmapped).isFree 0 = false ∧ t.isFree 0 = true ∧
        t.freePageCount = (reached pageUnmapped).freePageCount + 1 ∧
        ¬Untouched (reached pageUnmapped) t := by
  have hBefore : (reached pageUnmapped).isFree 0 = false := by decide +kernel
  have hAfter : (finalState ((unmap 0 0xA0010000).run (reached pageUnmapped))).isFree 0 = true := by
    decide +kernel
  refine ⟨run_reached (by decide +kernel), ?_, _, eq_ok_of_returned (by decide +kernel), hBefore,
    hAfter, by decide +kernel, fun h => ?_⟩
  · unfold InUse
    decide +kernel
  · have hSame := congrFun h.bitmap 0
    rw [hAfter, hBefore] at hSame
    cases hSame

end Kernel.Memory
