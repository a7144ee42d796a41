import MeetiX.Kernel.Memory.StaleUnmap

/-! Whether a physical page that some process maps can be marked as free. The
only record of who owns a page is a flag of the range it was first mapped in. -/
namespace Kernel.Memory

open Base Function

/-- No page that is mapped is free. The first physical page is mapped by all
processes. -/
structure Isolated (m : Memory) : Prop where
  layout : Layout m
  zero : ∃ writable, m.lowPages 0 = some ⟨0, writable⟩
  mapped : ∀ p page e, m.entry p page = some e → m.isFree e.frame = false

namespace Isolated

variable {m m' s t : Memory} {space page : Nat}

/-- The first physical page is what an empty entry stands for. -/
theorem zero_not_free (h : Isolated m) : m.isFree 0 = false := by
  obtain ⟨writable, hZero⟩ := h.zero
  exact h.mapped 0 0 ⟨0, writable⟩ (by simpa [entry, tableEntries] using hZero)

theorem physical_not_free (h : Isolated m) (p page : Nat) :
    m.isFree ((m.entry p page).elim 0 PageEntry.frame) = false := by
  cases hEntry : m.entry p page with
  | none => exact h.zero_not_free
  | some e => exact h.mapped p page e hEntry

theorem of_fewer (h : Isolated m) (hLayout : Layout m') (hZero : m'.lowPages 0 = m.lowPages 0)
    (hFree : ∀ frame, m.isFree frame = false → m'.isFree frame = false)
    (hEntries : ∀ p page e, m'.entry p page = some e → m.entry p page = some e) : Isolated m' where
  layout := hLayout
  zero := by
    rw [hZero]
    exact h.zero
  mapped p page e hEntry := hFree _ (h.mapped p page e (hEntries p page e hEntry))

theorem takeFrame (h : Isolated m) (frame : Nat) : Isolated (m.takeFrame frame) := by
  refine h.of_fewer (h.layout.of_spaces rfl rfl) rfl (fun other hOther => ?_) fun _ _ _ hEntry => hEntry
  unfold Memory.takeFrame
  by_cases hEq : other = frame
  · simp [hEq]
  · simpa [hEq] using hOther

theorem tabled (h : Isolated s) (hTabled : Tabled s space page t) : Isolated t := by
  refine (?_ : Isolated s → Isolated t) h
  cases hTabled with
  | present => exact id
  | @created frame hTable hZero hFree =>
    intro h
    have hTaken := h.takeFrame frame
    refine hTaken.of_fewer (h.layout.tabled (.created hTable hZero hFree)) rfl (fun _ hFree => hFree)
      fun p other e hEntry => ?_
    rw [entry_addTable] at hEntry
    split at hEntry
    · cases hEntry
    · exact hEntry

theorem setEntry (h : Isolated m) {value : Option PageEntry}
    (hTable : m.hasTable space page = true) (hPage : page ≠ 0)
    (hValue : ∀ e, value = some e → m.isFree e.frame = false) : Isolated (m.setEntry space page value) where
  layout := h.layout.setEntry hTable
  zero := by
    unfold Memory.setEntry
    split
    · simpa [update_of_ne hPage.symm] using h.zero
    · exact h.zero
  mapped p other e hEntry := by
    rw [isFree_setEntry]
    rw [entry_setEntry] at hEntry
    split at hEntry
    · exact hValue e hEntry
    · exact h.mapped p other e hEntry

theorem mapPage (h : Isolated m) {frame : Nat} (hTable : m.hasTable space page = true)
    (hPage : page ≠ 0) (hFrame : m.isFree frame = false) :
    Isolated (m.setEntry space page (some ⟨frame, true⟩)) := by
  refine h.setEntry hTable hPage fun e hEq => ?_
  cases hEq
  exact hFrame

/-- The page 0 is mapped, so it is not mapped again. -/
theorem page_ne_zero (h : Isolated m) (hEntry : m.entry space page = none) : page ≠ 0 := by
  rintro rfl
  obtain ⟨writable, hZero⟩ := h.zero
  simp [entry, tableEntries, hZero] at hEntry

end Isolated

variable {s t : Memory} {space frame virtualAddr : Nat}

theorem Tabled.isFree_le {page : Nat} (h : Tabled s space page t)
    (hFrame : s.isFree frame = false) : t.isFree frame = false := by
  cases h with
  | present => exact hFrame
  | @created taken =>
    change update s.isFree taken false frame = false
    by_cases hEq : frame = taken
    · simp [hEq]
    · simpa [hEq] using hFrame

theorem Isolated.map (h : Isolated s) (hFrame : s.isFree frame = false) :
    Finishes (fun _ t => Isolated t) (fun _ t => Isolated t)
      ((AddressSpace.map space virtualAddr (frame * pageSize) false).run s) := by
  refine AddressSpace.map_spec.mono ?_ ?_
  · rintro _ _ ⟨-, -, -, u, hTabled, rfl⟩
    have hTable := h.tabled hTabled
    rw [Nat.mul_div_cancel _ (by decide : 0 < pageSize), Bool.or_false]
    split
    · rename_i hNone
      exact hTable.mapPage hTabled.hasTable
        (hTable.page_ne_zero (Option.isNone_iff_eq_none.mp hNone)) (hTabled.isFree_le hFrame)
    · exact hTable
  · rintro _ _ ⟨rfl, -⟩
    exact h

theorem Isolated.allocate {s : Memory} (h : Isolated s) :
    Finishes (fun phys t => Isolated t ∧ ∃ frame, phys = frame * pageSize ∧ t.isFree frame = false)
      (fun _ t => Isolated t) (PPallocator.allocate.run s) := by
  refine PPallocator.allocate_spec.mono ?_ ?_
  · rintro _ _ ⟨frame, rfl, -, -, rfl⟩
    exact ⟨h.takeFrame frame, frame, rfl, by simp [Memory.takeFrame]⟩
  · rintro _ _ ⟨rfl, -⟩
    exact h

instance : Keeps Isolated PPallocator.allocate :=
  .mk fun _ h => h.allocate.mono (fun _ _ hTaken => hTaken.1) fun _ _ hSame => hSame

instance (address : Nat) : Keeps Isolated (PPreferenceTracker.increment address) :=
  Keeps.modify fun _ h => h.of_fewer (h.layout.of_spaces rfl rfl) rfl (fun _ hFree => hFree)
    fun _ _ _ hEntry => hEntry

theorem Isolated.of_same {m m' : Memory} (h : Isolated m) (hLayout : Layout m')
    (hLow : m'.lowPages = m.lowPages) (hFree : m'.isFree = m.isFree)
    (hPages : ∀ q, (m'.processes q).pages = (m.processes q).pages) : Isolated m' := by
  refine h.of_fewer hLayout (congrFun hLow 0) (fun frame hFrame => by rwa [hFree]) fun p page e hEntry => ?_
  rwa [entry_of_pages hLow hPages] at hEntry

/-- A new page is not free when it is mapped. -/
instance (p virtualAddr : Nat) (counted : Bool) :
    Keeps Isolated (mapNewPage p virtualAddr counted) := by
  refine .mk fun s h => h.allocate.bind ?_ fun _ _ hSame => hSame
  rintro _ t ⟨hTaken, frame, rfl, hFrame⟩
  refine (hTaken.map hFrame).bind (fun _ u hMapped => ?_) fun _ _ hSame => hSame
  have hRest : Keeps Isolated (if counted then PPreferenceTracker.increment (frame * pageSize)
    else pure () : Action Unit) := inferInstance
  exact hRest.finishes _ hMapped

instance (p virtualAddr : Nat) : Keeps Isolated (mapStackPage p virtualAddr false) := by
  refine .mk fun s h => h.allocate.bind ?_ fun _ _ hSame => hSame
  rintro _ t ⟨hTaken, frame, rfl, hFrame⟩
  refine AddressSpace.mapToTemporaryMappedDirectory_spec.bind ?_ ?_
  · rintro _ _ ⟨-, -, v, hTabled, hNone, rfl⟩
    rw [Bool.or_false, Option.isNone_iff_eq_none] at hNone
    have hTable := hTaken.tabled hTabled
    rw [Nat.mul_div_cancel _ (by decide : 0 < pageSize)]
    exact .returns
      (hTable.mapPage hTabled.hasTable (hTable.page_ne_zero hNone) (hTabled.isFree_le hFrame))
  · rintro _ _ ⟨rfl | hTabled, -⟩
    · exact hTaken
    · exact hTaken.tabled hTabled

instance : KeptByGrowth Isolated where
  allocate := inferInstance
  allocateRange p requestedPages flags := by
    refine Keeps.modifyGet fun m h => ?_
    have hLayout := h.layout.setRanges
      (rfl : AddressRangePool.allocate (m.processes p).virtualRanges requestedPages flags = _)
    refine h.of_fewer hLayout rfl (fun _ hFree => hFree) fun q page e hEntry => ?_
    rwa [entry_setRanges] at hEntry
  mapNewPage := inferInstance
  mapStackPage := inferInstance
  kernelRange := Keeps.modifyGet fun m h =>
    h.of_same (h.layout.of_spaces rfl rfl) rfl rfl fun _ => rfl
  mapKernel virtualAddr physicalAddr := by
    unfold AddressSpace.mapKernel
    have hSet : ∀ page frame, Keeps Isolated (modify (·.setKernelPage page frame) : Action PUnit) :=
      fun page frame => Keeps.modify fun _ h =>
        h.of_same (h.layout.of_spaces rfl rfl) rfl rfl fun _ => rfl
    infer_instance
  contents m contents h := h.of_same (h.layout.of_spaces rfl rfl) rfl rfl fun _ => rfl
  threads m threads threadCount h := h.of_same (h.layout.of_spaces rfl rfl) rfl rfl fun _ => rfl
  addProcess securityLevel := by
    refine Keeps.modifyGet fun m h => ?_
    refine h.of_fewer ?_ rfl (fun _ hFree => hFree) fun q page e hEntry => ?_
    · exact h.layout.setProcess _ (Process.new securityLevel) rangesOk_new (fun _ _ _ => rfl) rfl
    · rw [entry_insertProcess_new] at hEntry
      split at hEntry
      · cases hEntry
      · exact hEntry
  fields m p change hChange h := by
    refine h.of_same (KeptByGrowth.fields m p change hChange h.layout) rfl rfl fun q => ?_
    by_cases hq : q = p
    · subst hq
      simp [(hChange _).pages]
    · simp [hq]

theorem Isolated.sharePage (p target targetAddr : Nat) (hUser : virtualAddr < kernelAreaStart) :
    Keeps Isolated (sharePage p virtualAddr target targetAddr) := by
  refine .mk fun s h => AddressSpace.virtualToPhysical_spec.bind ?_ ?_
  · rintro _ _ ⟨rfl, frame, rfl, hFrame⟩
    refine (h.map ?_).bind (fun _ u hMapped => .returns hMapped) fun _ _ hSame => hSame
    rw [(hFrame hUser).2]
    exact h.physical_not_free ..
  · rintro _ _ ⟨-, rfl, -⟩
    exact h

/-- The test of the call keeps it away from the addresses of the kernel. -/
instance (p memory size processID : Nat) : Keeps Isolated (shareMem p memory size processID) :=
  .of_after fun s h => by
    rcases shareMem_cases s p memory size processID with hFailed | ⟨hTest, thread, -, hCall⟩
    · rw [hFailed]
      exact h
    · rw [hCall, run_bind]
      cases hRange : (allocateRange thread.process (pageAlignUp size / pageSize) rangeFlagNone).run s with
      | error reason t => cases hRange
      | ok base t =>
        have hRanges : Isolated t := Keeps.of_returns h hRange
        obtain ⟨pool, hAllocate, -⟩ := allocateRange_returns hRange
        dsimp only
        by_cases hBase : base = 0
        · rw [if_pos hBase]
          exact hRanges
        · obtain ⟨-, -, hInside⟩ := share_inside h.layout hBase hAllocate hTest
          rw [if_neg hBase]
          have hLoop : Keeps Isolated (shareLoop p memory thread.process base
              (pageAlignUp size / pageSize)) := by
            refine Ensures.forIn_of_mem _ _ _ fun i hi _ => ?_
            rw [List.mem_range] at hi
            have hLess := Nat.mul_lt_mul_of_pos_right hi (by decide : 0 < pageSize)
            have hUser : pageAddress memory i < kernelAreaStart := by
              rw [pageAddress_eq]
              · omega
              · unfold kernelAreaStart at hInside
                unfold wordSize
                omega
            have hShare := Isolated.sharePage p thread.process (pageAddress base i) hUser
            infer_instance
          have hCall : Keeps Isolated (shareLoop p memory thread.process base
              (pageAlignUp size / pageSize) >>= fun _ => pure base) := inferInstance
          exact hCall.after hRanges

/-- The bitmap is the same, and entries were only removed, not the one of the
first page. -/
structure Fewer (m m' : Memory) : Prop where
  bitmap : m'.isFree = m.isFree
  zero : m'.lowPages 0 = m.lowPages 0
  entries : ∀ p page e, m'.entry p page = some e → m.entry p page = some e

instance (m : Memory) (p base : Nat) : Keeps (Fewer m) (freeRange p base) :=
  Keeps.modify fun s h => by
    refine ⟨h.bitmap, h.zero, fun q page e hEntry => h.entries q page e ?_⟩
    rw [← hEntry]
    apply Eq.symm
    apply entry_of_pages
    · rfl
    · intro other
      by_cases hOther : other = p
      · subst hOther
        simp [Process.setRanges]
      · simp [hOther]

theorem Fewer.unmapPage (m : Memory) (p : Nat) {virtualAddress : Nat}
    (hPage : virtualAddress / pageSize ≠ 0) : Keeps (Fewer m) (AddressSpace.unmap p virtualAddress) :=
  .of_after fun s h => by
    change Fewer m (if s.hasTable p (virtualAddress / pageSize) then
      s.setEntry p (virtualAddress / pageSize) none else s)
    split
    · refine ⟨by simpa using h.bitmap, ?_, fun q page e hEntry => ?_⟩
      · unfold setEntry
        split
        · simpa [update_of_ne hPage.symm] using h.zero
        · exact h.zero
      · rw [entry_setEntry] at hEntry
        split at hEntry
        · cases hEntry
        · exact h.entries q page e hEntry
    · exact h

/-- Every page of the range is mapped, and what it is mapped to is mapped
nowhere but in this range of this process. -/
def SoleMapping (s : Memory) (p : Nat) (range : AddressRangePool.AddressRange) : Prop :=
  ∀ i < range.pages, ∃ e, s.entry p (range.base / pageSize + i) = some e ∧
    ∀ q page other, s.entry q page = some other → other.frame = e.frame →
      q = p ∧ ∃ j < range.pages, page = range.base / pageSize + j

section Unmap

variable {s t : Memory} {p i : Nat} {range : AddressRangePool.AddressRange}

theorem page_of_range_ne_zero (hLayout : Layout s) (hMem : range ∈ (s.processes p).virtualRanges)
    (hi : i < range.pages) : pageAddress range.base i / pageSize ≠ 0 := by
  rw [page_of_range (hLayout.sound hMem) hi]
  have hLow := ((hLayout.ranges p).inside hMem).1
  unfold userVirtualRangesStart at hLow
  unfold pageSize
  omega

theorem Fewer.unmapRange (hLayout : Layout s) (hMem : range ∈ (s.processes p).virtualRanges) (m : Memory) :
    Keeps (Fewer m) (unmapLoop p range.base range.pages >>= fun _ => freeRange p range.base) := by
  have hLoop : Keeps (Fewer m) (unmapLoop p range.base range.pages) := by
    refine Ensures.forIn_of_mem _ _ _ fun i hi _ => ?_
    have hPage := Fewer.unmapPage m p (page_of_range_ne_zero hLayout hMem (List.mem_range.mp hi))
    infer_instance
  infer_instance

/-- Where the first loop stands: it has only freed what the first pages of the
range are mapped to. -/
structure Freed (s : Memory) (p : Nat) (range : AddressRangePool.AddressRange) (done : Nat) (a : Memory) :
    Prop where
  layout : Layout a
  low : a.lowPages = s.lowPages
  entries : ∀ q page, a.entry q page = s.entry q page
  freed : ∀ frame, a.isFree frame = true → s.isFree frame = true ∨
    ∃ i < done, ∃ e, s.entry p (range.base / pageSize + i) = some e ∧ e.frame = frame

/-- The first loop passes through the range, since all its pages are mapped. -/
theorem freeLoop_run (hLayout : Layout s) (hMem : range ∈ (s.processes p).virtualRanges)
    (hSole : SoleMapping s p range) :
    ∃ a, (freeLoop p range.base range.pages).run s = .ok PUnit.unit a ∧ Freed s p range range.pages a := by
  have hUser : ∀ i < range.pages, pageAddress range.base i < kernelAreaStart := by
    intro i hi
    have hSound := hLayout.sound hMem
    have hHigh := ((hLayout.ranges p).inside hMem).2
    have hStop := hSound.stop_lt
    have hLess := Nat.mul_lt_mul_of_pos_right hi (by decide : 0 < pageSize)
    unfold AddressRangePool.AddressRange.stop at hHigh hStop
    rw [pageAddress_eq (by omega)]
    omega
  have hStart : Freed s p range 0 s := ⟨hLayout, rfl, fun _ _ => rfl, fun _ hFree => .inl hFree⟩
  have hBody : ∀ i a, 0 ≤ i → i < 0 + range.pages → Freed s p range i a →
      Finishes (fun _ b => Freed s p range (i + 1) b) (fun _ _ => False)
        ((freePage p (pageAddress range.base i)).run a) := by
    intro i a _ hi hFreed
    rw [Nat.zero_add] at hi
    obtain ⟨e, hEntry, -⟩ := hSole i hi
    refine AddressSpace.virtualToPhysical_spec.bind ?_ ?_
    · rintro _ middle ⟨rfl, frame, rfl, hFrame⟩
      obtain ⟨-, hFrame⟩ := hFrame (hUser i hi)
      rw [page_of_range (hLayout.sound hMem) hi, hFreed.entries, hEntry] at hFrame
      obtain rfl : frame = e.frame := hFrame
      refine .returns ?_
      rw [Nat.mul_div_cancel _ (by decide : 0 < pageSize)]
      refine ⟨hFreed.layout.of_spaces rfl rfl, hFreed.low, hFreed.entries, fun other hOther => ?_⟩
      by_cases hEq : other = e.frame
      · exact .inr ⟨i, by omega, e, hEntry, hEq.symm⟩
      · have hOld : middle.isFree other = true := by
          simpa [releaseFrame, update_of_ne hEq] using hOther
        rcases hFreed.freed other hOld with hFree | ⟨j, hj, found⟩
        · exact .inl hFree
        · exact .inr ⟨j, by omega, found⟩
    · rintro _ _ ⟨-, -, hTable⟩
      have hNone := hFreed.layout.tables p _ hTable
      rw [page_of_range (hLayout.sound hMem) hi, hFreed.entries, hEntry] at hNone
      cases hNone
  unfold freeLoop
  rw [List.range_eq_range']
  obtain ⟨_, a, hRun, hEnd⟩ := (loop_finishes (Freed s p range) hStart hBody).exists_returns
  rw [Nat.zero_add] at hEnd
  exact ⟨a, hRun, hEnd⟩

theorem unmapRange_unmapped (hLayout : Layout s) (base pages : Nat) (hi : i < pages) :
    (finalState ((unmapLoop p base pages >>= fun _ => freeRange p base).run s)).entry p
      (pageAddress base i / pageSize) = none := by
  cases hRun : (unmapLoop p base pages >>= fun _ => freeRange p base).run s with
  | ok value t =>
    obtain ⟨_, a, hLoop, hRange⟩ := bind_returns_iff.mp hRun
    obtain ⟨-, hEmpty⟩ := unmapLoop_returns hLayout hLoop
    have hFewer : Fewer a t := Keeps.of_returns ⟨rfl, rfl, fun _ _ _ hEntry => hEntry⟩ hRange
    cases hEntry : t.entry p (pageAddress base i / pageSize) with
    | none => exact hEntry
    | some e =>
      have hOld := hFewer.entries _ _ e hEntry
      rw [hEmpty i hi] at hOld
      cases hOld
  | error reason t =>
    have hNever : StopsWith (fun _ _ => False) (unmapLoop p base pages >>= fun _ => freeRange p base) := by
      unfold unmapLoop AddressSpace.unmap freeRange
      infer_instance
    exact (hNever.stops hRun).elim

/-- What is freed by the first loop is unmapped by the second one. -/
theorem Isolated.unmap (h : Isolated s) {virtualBase : Nat}
    (hCareful : ∀ range, findRange p virtualBase s = some range →
      range.flags &&& rangeFlagPhysicalOwner ≠ 0 → SoleMapping s p range) :
    Isolated (finalState ((unmap p virtualBase).run s)) := by
  have hLayout : Keeps Layout (Memory.unmap p virtualBase) := inferInstance
  have hAfter := hLayout.after h.layout
  cases hFind : findRange p virtualBase s with
  | none =>
    rw [run_unmap_of_none hFind]
    exact h
  | some range =>
    have hMem := (findRange_some hFind).1
    rw [unmap_of_some hFind] at hAfter ⊢
    by_cases hOwner : range.flags &&& rangeFlagPhysicalOwner ≠ 0
    · have hSole := hCareful range hFind hOwner
      obtain ⟨a, hFree, hFreed⟩ := freeLoop_run h.layout hMem hSole
      rw [if_pos hOwner, run_bind, hFree] at hAfter ⊢
      have hFewer := (Fewer.unmapRange h.layout hMem a).after ⟨rfl, rfl, fun _ _ _ hEntry => hEntry⟩
      refine ⟨hAfter, ?_, fun q page e hEntry => ?_⟩
      · rw [hFewer.zero, hFreed.low]
        exact h.zero
      · have hOld := hFewer.entries q page e hEntry
        rw [hFreed.entries] at hOld
        rw [hFewer.bitmap, ← Bool.not_eq_true]
        intro hNow
        rcases hFreed.freed e.frame hNow with hFree | ⟨i, hi, e', hEntry', hFrame⟩
        · rw [h.mapped q page e hOld] at hFree
          cases hFree
        · obtain ⟨e'', hEntry'', hOnly⟩ := hSole i hi
          rw [hEntry'] at hEntry''
          cases hEntry''
          obtain ⟨rfl, j, hj, rfl⟩ := hOnly q page e hOld hFrame.symm
          have hNone := unmapRange_unmapped (p := q) hFreed.layout range.base range.pages hj
          rw [page_of_range (h.layout.sound hMem) hj] at hNone
          rw [hNone] at hEntry
          cases hEntry
    · rw [if_neg hOwner] at hAfter ⊢
      have hFewer := (Fewer.unmapRange h.layout hMem s).after ⟨rfl, rfl, fun _ _ _ hEntry => hEntry⟩
      refine h.of_fewer hAfter hFewer.zero (fun frame hFrame => ?_) hFewer.entries
      rwa [hFewer.bitmap]

end Unmap

/-- The events by which processes come into being, get and give back memory
ranges, and start and end their threads. -/
def Event.IsRangeCall : Event → Bool
  | .spawn .. | .writeTlsMaster .. | .createThread .. | .exitThread .. => true
  | .allocMem .. | .shareMem .. | .unmap .. => true
  | .mapMmio .. | .sbrk .. | .fork .. | .write .. => false

/-- No thread exits, and a range of a physical owner is only unmapped when all
its pages are mapped and nobody shares them. -/
def Careful (s : Memory) : Event → Prop
  | .exitThread _ => False
  | .unmap id virtualBase => ∀ thread range, s.threads id = some thread →
      findRange thread.process virtualBase s = some range →
      range.flags &&& rangeFlagPhysicalOwner ≠ 0 → SoleMapping s thread.process range
  | _ => True

structure CarefulStep (s : Memory) (event : Event) (t : Memory) : Prop where
  step : Step s event t
  isRangeCall : event.IsRangeCall = true
  careful : Careful s event

theorem boot_isolated (isFree : Nat → Bool) (freePageCount : Nat) (contents : Nat → Nat → UInt8)
    (kernelPages : Nat → Option Nat) (kernelRanges : AddressRangePool.Pool) :
    Isolated (boot isFree freePageCount contents kernelPages kernelRanges) where
  layout := boot_layout ..
  zero := ⟨true, rfl⟩
  mapped p page e hEntry := by
    unfold boot entry at *
    dsimp only at *
    split at hEntry
    · split at hEntry
      · rename_i hLow
        cases hEntry
        simp [hLow]
      · cases hEntry
    · cases hEntry

theorem CarefulStep.isolated {event : Event} (hStep : CarefulStep s event t)
    (h : Isolated s) : Isolated t := by
  obtain ⟨hStep, hCall, hCareful⟩ := hStep
  cases event with
  | spawn | writeTlsMaster | createThread | allocMem | shareMem =>
    refine @Step.keeps _ _ _ _ ?_ hStep h
    simp only [execute, createSubThread]
    infer_instance
  | exitThread id => exact hCareful.elim
  | unmap id virtualBase =>
    rw [hStep.eq_finalState]
    unfold execute
    cases hThread : s.threads id with
    | none =>
      rw [run_withThread_of_none hThread]
      exact h
    | some thread =>
      rw [run_withThread hThread]
      exact h.unmap fun range => hCareful thread range hThread
  | mapMmio | sbrk | fork | write => cases hCall

/-- From the start of the system on, as long as no thread exits and only what
is not shared is unmapped, no page that a process maps is free. -/
theorem mapped_not_free {isFree : Nat → Bool} {freePageCount : Nat} {contents : Nat → Nat → UInt8}
    {kernelPages : Nat → Option Nat} {kernelRanges : AddressRangePool.Pool} {events : List Event}
    {s : Memory}
    (run : Run CarefulStep (boot isFree freePageCount contents kernelPages kernelRanges) events s)
    {p page : Nat} {e : PageEntry} (hEntry : s.entry p page = some e) : s.isFree e.frame = false := by
  have hIsolated : Isolated s :=
    run.invariant (boot_isolated ..) fun _ _ _ h hStep => hStep.isolated h
  exact hIsolated.mapped p page e hEntry

/-- Two processes, one of which allocates a page and shares it with the other. -/
def sharingEvents : List Event :=
  [.spawn 2 smallImage none, .spawn 2 smallImage none, .allocMem 0 0x1000,
    .shareMem 0 0xA0010000 0x1000 1]

theorem mapped_not_free_shared : (reached sharingEvents).entry 1 0xA0010 = some ⟨268, true⟩ ∧
      (reached sharingEvents).isFree 268 = false := by
  have hRun : Run Step smallMachine sharingEvents (reached sharingEvents) :=
    run_reached (by decide +kernel)
  have hCareful : Run CarefulStep smallMachine sharingEvents (reached sharingEvents) := by
    refine hRun.of_mem fun s event t hMem hStep => ⟨hStep, ?_, ?_⟩
    · fin_cases hMem <;> rfl
    · fin_cases hMem <;> trivial
  have hEntry : (reached sharingEvents).entry 1 0xA0010 = some ⟨268, true⟩ := by
    decide +kernel
  have hFree := mapped_not_free hCareful hEntry
  dsimp only at hFree
  exact ⟨hEntry, hFree⟩

/-- The process that shares the page gives it up. The page is marked as free
and the other process still maps it. -/
theorem unmap_frees_shared_frame : Run Step smallMachine (sharingEvents ++ [.unmap 0 0xA0010000])
        (reached (sharingEvents ++ [.unmap 0 0xA0010000])) ∧
      (reached (sharingEvents ++ [.unmap 0 0xA0010000])).entry 1 0xA0010 = some ⟨268, true⟩ ∧
      (reached (sharingEvents ++ [.unmap 0 0xA0010000])).isFree 268 = true := by
  exact ⟨run_reached (by decide +kernel), by decide +kernel, by decide +kernel⟩

end Kernel.Memory
