import MeetiX.Kernel.Memory.ProcessCreation

/-! What the page fault handler does: the stack of a main thread grows down to
the page that was accessed, and a page of the image is replaced by a copy. -/
namespace Kernel.Memory

open Base Function

section Growth

variable {s a b t : Memory} {p first done : Nat}

theorem mapNewPage_spares {virtualAddr : Nat} {counted : Bool} {value : Unit}
    (hPage : tableEntries ≤ virtualAddr / pageSize)
    (h : (mapNewPage p virtualAddr counted).run s = .ok value t) :
    Spares (· ≠ p) s t ∧ t.kernelPages = s.kernelPages ∧
      (counted = false → t.references = s.references) := by
  obtain ⟨-, -, frame, u, w, -, -, hTabled, hMapped, hCounted⟩ := mapNewPage_spec.of_returns h
  have hTable : Spares (· ≠ p) s u := (Spares.takeFrame _ s frame).trans (.tabled hTabled)
  have hPages : u.kernelPages = (s.takeFrame frame).kernelPages := Tabled.kernelPages_eq hTabled
  obtain ⟨hSpares, hKernelPages, hReferences⟩ : Spares (· ≠ p) s w ∧
      w.kernelPages = s.kernelPages ∧ w.references = s.references := by
    rw [hMapped]
    split
    · exact ⟨hTable.trans (.setEntry u p hPage _),
        (kernelPages_setEntry ..).trans hPages,
        (references_setEntry ..).trans hTabled.references_eq⟩
    · exact ⟨hTable, hPages, hTabled.references_eq⟩
  cases counted with
  | false =>
    cases hCounted
    exact ⟨hSpares, hKernelPages, fun _ => hReferences⟩
  | true =>
    cases hCounted
    refine ⟨hSpares.trans ?_, hKernelPages, nofun⟩
    exact .of_user (fun _ _ => rfl) rfl rfl rfl (le_refl _) (fun _ h => h) rfl rfl rfl

/-- The pages from the first one on are mapped, to physical pages that were free, unless they were
mapped already. -/
structure Grown (s t : Memory) (p first done : Nat) : Prop where
  layout : Layout t
  spares : Spares (· ≠ p) s t
  references : t.references = s.references
  kernelPages : t.kernelPages = s.kernelPages
  fields : (t.processes p).fields = (s.processes p).fields
  outside : ∀ page, page < first ∨ first + done ≤ page ∨ (s.entry p page).isSome = true →
    t.entry p page = s.entry p page
  inside : ∀ i < done, s.entry p (first + i) = none → ∃ e, t.entry p (first + i) = some e ∧
    e.writable = true ∧ s.isFree e.frame = true ∧ t.isFree e.frame = false

namespace Grown

theorem refl (s : Memory) (hLayout : Layout s) (p first : Nat) : Grown s s p first 0 where
  layout := hLayout
  spares := .refl _ s
  references := rfl
  kernelPages := rfl
  fields := rfl
  outside _ _ := rfl
  inside _ h := absurd h (Nat.not_lt_zero _)

theorem step (h : Grown s a p first done) {virtualAddr : Nat} (hFirst : tableEntries ≤ first)
    (hPage : virtualAddr / pageSize = first + done)
    (hRun : (mapNewPage p virtualAddr false).run a = .ok () b) : Grown s b p first (done + 1) := by
  obtain ⟨hSpares, hKernelPages, hReferences⟩ := mapNewPage_spares (by omega) hRun
  obtain ⟨-, -, hRest, frame, hNew⟩ := mapNewPage_returns h.layout hRun
  have hEntry := hNew.entry_own
  rw [hPage] at hEntry
  refine ⟨hNew.layout, h.spares.trans hSpares, (hReferences rfl).trans h.references,
    hKernelPages.trans h.kernelPages, (hRest.fields p).trans h.fields, ?_, ?_⟩
  · intro page hOut
    have hOld : a.entry p page = s.entry p page := h.outside page (hOut.imp_right fun hRest => hRest.imp_left fun hLe => by omega)
    by_cases hSame : page = first + done
    · subst hSame
      have hMapped : (a.entry p (first + done)).isSome = true := by
        rw [hOld]
        exact (hOut.resolve_left (by omega)).resolve_left (by omega)
      rw [hEntry, if_neg (fun hNone => by simp [hNone.2] at hMapped), hOld]
    · rw [hEntry, if_neg (fun hNone => hSame hNone.1), hOld]
  · intro i hi hNone
    by_cases hLast : i = done
    · subst hLast
      have hUnmapped : a.entry p (first + i) = none := by
        rw [h.outside _ (.inr (.inl (le_refl _))), hNone]
      refine ⟨⟨frame, true⟩, by rw [hEntry, if_pos ⟨rfl, hUnmapped⟩], rfl,
        h.spares.isFree_of hNew.fresh, hNew.used_frame⟩
    · obtain ⟨e, he, hWritable, hFree, hUsed⟩ := h.inside i (by omega) hNone
      refine ⟨e, ?_, hWritable, hFree, hSpares.used _ hUsed⟩
      rw [hEntry, if_neg (fun hSame => hLast (by omega)), he]

end Grown

theorem mapNewPages_grown (p base count : Nat) (hLayout : Layout s) (hBase : base % pageSize = 0)
    (hLow : tableEntries ≤ base / pageSize) (hHigh : base + count * pageSize ≤ kernelAreaStart) :
    Finishes (fun _ t => Grown s t p (base / pageSize) count) Starved
      ((mapNewPages p base count false).run s) := by
  have hPage : ∀ i < count, pageAddress base i = base + i * pageSize ∧
      pageAddress base i / pageSize = base / pageSize + i ∧ pageAddress base i < kernelAreaStart := by
    intro i hi
    have hAddress : pageAddress base i = base + i * pageSize := by
      apply pageAddress_eq
      unfold pageSize wordSize kernelAreaStart at *
      omega
    refine ⟨hAddress, by rw [hAddress, page_add], ?_⟩
    unfold pageSize at *
    omega
  unfold mapNewPages
  rw [List.range_eq_range']
  refine (loop_finishes (fun i a => Grown s a p (base / pageSize) i) (.refl s hLayout p _)
    fun i a _ hi hGrown => ?_).bind (fun _ t hEnd => ?_) fun _ _ hStop => hStop
  · obtain ⟨hAddress, hNumber, hUser⟩ := hPage i (by omega)
    refine (Finishes.of_run _).mono (fun _ b => hGrown.step hLow hNumber) fun _ _ hStop => ?_
    refine (mapNewPage_spec.of_stops hStop).2 ?_ hUser
    rw [hAddress, Nat.add_mul_mod_self_right]
    exact hBase
  · rw [Nat.zero_add] at hEnd
    exact .returns hEnd

end Growth

section Stack

variable {s t : Memory} {thread : Thread} {id address : Nat}

def OnStackArea (page : Nat) : Prop :=
  userVirtualRangesStart / pageSize ≤ page ∧
    page < userVirtualRangesStart / pageSize + threadUserStackReservedVirtualPages

theorem pageAlignDown_eq (address : Nat) : pageAlignDown address = address / pageSize * pageSize := by
  unfold pageAlignDown pageSize
  omega

/-- The area that the handler computes is the one that was reserved. -/
theorem Thread.OnMainStack.area_iff (h : thread.OnMainStack) :
    (thread.stackAreaStart ≤ pageAlignDown address ∧ pageAlignDown address < thread.stackAreaEnd) ↔
      OnStackArea (address / pageSize) := by
  have hStop := h.stop_eq
  have hPages := h.pages_le
  unfold Thread.stackAreaStart Thread.stackAreaEnd OnStackArea
  rw [pageAlignDown_eq, sub32_of_le, wrap32_of_lt]
  all_goals
    unfold userVirtualRangesStart threadUserStackReservedVirtualPages pageSize at *
    try unfold wordSize
    omega

/-- The thread after its stack has been mapped down to a page. -/
def Thread.grownTo (thread : Thread) (page : Nat) : Thread :=
  { thread with
    userStackPages := thread.userStackPages +
      (thread.userStackAreaStart - page * pageSize) / pageSize
    userStackAreaStart := page * pageSize }

theorem Thread.OnMainStack.grownTo (h : thread.OnMainStack) {page : Nat} (hArea : OnStackArea page)
    (hBelow : page ≤ thread.stackPage) : (thread.grownTo page).OnMainStack := by
  have hStop := h.stop_eq
  obtain ⟨hLow, hHigh⟩ := hArea
  refine ⟨?_, ?_, ?_⟩
  all_goals
    unfold Thread.grownTo
    dsimp only
    unfold Thread.stackPage userVirtualRangesStart pageSize at *
    omega

theorem Thread.added_eq (page : Nat) :
    (thread.userStackAreaStart - page * pageSize) / pageSize = thread.stackPage - page := by
  unfold Thread.stackPage pageSize
  omega

theorem growStack_spec (id : Nat) {page : Nat} (hLayout : Layout s) (hStack : thread.OnMainStack)
    (hArea : OnStackArea page) :
    Finishes (fun _ t => ∃ u, Grown s u thread.process page (thread.stackPage - page) ∧
        t = { u with threads := update s.threads id (some (thread.grownTo page)) })
      Starved ((growStack id thread (page * pageSize)).run s) := by
  have hStop := hStack.stop_eq
  obtain ⟨hLow, hHigh⟩ := hArea
  have hUnit : page * pageSize / pageSize = page := Nat.mul_div_cancel _ (by decide)
  refine (mapNewPages_grown thread.process (page * pageSize)
    ((thread.userStackAreaStart - page * pageSize) / pageSize) hLayout
    (Nat.mul_mod_left ..) ?_ ?_).bind (fun _ u hGrown => ?_) fun _ _ hStops => hStops
  · unfold userVirtualRangesStart pageSize tableEntries at *
    omega
  · unfold userVirtualRangesStart threadUserStackReservedVirtualPages pageSize kernelAreaStart at *
    omega
  · rw [hUnit, Thread.added_eq] at hGrown
    refine .returns ⟨u, hGrown, ?_⟩
    have hPages : (thread.userStackPages + (thread.userStackAreaStart - page * pageSize) / pageSize) %
        256 = (thread.grownTo page).userStackPages := by
      have hFew := hStack.pages_le
      apply Nat.mod_eq_of_lt
      unfold threadUserStackReservedVirtualPages pageSize at *
      omega
    rw [← hGrown.spares.threads, hPages]
    rfl

end Stack

/-! A page of the image is replaced by a copy in a physical page that was free. -/

structure CopiedOnWrite (s t : Memory) (p page old new : Nat) : Prop where
  layout : Layout t
  fields : ∀ q, (t.processes q).fields = (s.processes q).fields
  processCount : t.processCount = s.processCount
  threads : t.threads = s.threads
  kernelRanges : t.kernelRanges = s.kernelRanges
  fresh : s.isFree new = true
  entry : ∀ q g, t.entry q g =
    if g = page ∧ (page < tableEntries ∨ q = p) then some ⟨new, true⟩ else s.entry q g
  contents : t.contents = update s.contents new (s.contents old)
  free_of : ∀ f, t.isFree f = true → s.isFree f = true ∧ f ≠ new ∨ f = old
  free_mono : ∀ f, s.isFree f = true → f ≠ new → t.isFree f = true
  count_new : t.count new = Int.bmod (s.count new + 1) 65536
  count_of_ne : ∀ f, f ≠ new → f ≠ old → t.count f = s.count f
  count_old : s.count old ≠ 0 → t.count old = Int.bmod (s.count old - 1) 65536 ∧
    (t.isFree old = true ↔ t.count old = 0)

section CopyOnWrite

variable {s t : Memory} {p page : Nat} {e : PageEntry}

theorem Layout.hasTable_of_entry (hLayout : Layout s) (hEntry : s.entry p page = some e) :
    s.hasTable p page = true := by
  cases hTable : s.hasTable p page with
  | true => rfl
  | false =>
    rw [hLayout.tables p page hTable] at hEntry
    cases hEntry

theorem frameAt_user {address : Nat} (hUser : address < kernelAreaStart) :
    frameAt p address s = (s.entry p (address / pageSize)).map PageEntry.frame := by
  unfold frameAt
  rw [if_neg (by omega)]

/-- No table has to be made for a page that is mapped. -/
theorem Tabled.eq_of_hasTable {u : Memory} (h : Tabled s p page u)
    (hTable : s.hasTable p page = true) : u = s := by
  cases h with
  | present => rfl
  | created hNone =>
    rw [hTable] at hNone
    cases hNone

theorem isFree_takeFrame_of_ne {m : Memory} {frame f : Nat} (hFree : m.isFree f = true)
    (hf : f ≠ frame) : (m.takeFrame frame).isFree f = true := by
  change update m.isFree frame false f = true
  rw [update_of_ne hf]
  exact hFree

theorem kernelRanges_setEntry (m : Memory) (p page : Nat) (value : Option PageEntry) :
    (m.setEntry p page value).kernelRanges = m.kernelRanges := by
  unfold setEntry
  split
  · rfl
  · rfl

/-- A mapped page gets a physical page of its own with the same bytes and may be written, or the
memory is used up. -/
theorem copyOnWrite_spec (hLayout : Layout s) (hUser : page * pageSize < kernelAreaStart)
    (hEntry : s.entry p page = some e) (hUsed : s.isFree e.frame = false) :
    Finishes (fun _ t => ∃ new, CopiedOnWrite s t p page e.frame new) Starved
      ((copyOnWrite p (page * pageSize) (e.frame * pageSize)).run s) := by
  refine .of_keeps (inferInstance : Keeps Layout (copyOnWrite p (page * pageSize)
    (e.frame * pageSize))) hLayout ?_
  have hPage : page * pageSize / pageSize = page := Nat.mul_div_cancel _ (by decide)
  refine PPallocator.allocate_spec.bind ?_ fun _ _ hStop => hStop.2
  rintro _ _ ⟨new, rfl, -, hFree, rfl⟩
  have hNew : new * pageSize / pageSize = new := Nat.mul_div_cancel _ (by decide)
  have hNe : e.frame ≠ new := by
    rintro hSame
    rw [hSame, hFree] at hUsed
    cases hUsed
  have hFrame : frameAt p (page * pageSize) (s.takeFrame new) = some e.frame := by
    rw [frameAt_user hUser, hPage, entry_takeFrame, hEntry]
    rfl
  refine copyPage_spec.bind ?_ fun _ _ hNone => absurd (hFrame.symm.trans hNone)
    (Option.some_ne_none _)
  rintro _ copied ⟨source, hSource, hCopied⟩
  cases hFrame.symm.trans hSource
  rw [hNew] at hCopied
  subst hCopied
  refine AddressSpace.map_spec.bind ?_
    fun _ _ hStop => hStop.2 (Nat.mul_mod_left ..) (Nat.mul_mod_left ..) hUser
  rintro _ after ⟨-, -, -, u, hTabled, hMapped⟩
  rw [Tabled.eq_of_hasTable hTabled (hPage.symm ▸ hLayout.hasTable_of_entry hEntry), Bool.or_true,
    if_pos rfl, hPage, hNew] at hMapped
  refine (Finishes.of_run _).bind (fun _ counted hIncrement => ?_) fun _ _ hStop => by cases hStop
  have hCounted : counted = after.setCount new (Int.bmod (after.count new + 1) 65536) := by
    cases hIncrement
    rw [hNew]
  refine dropReference_spec.mono (fun _ t hDropped hAfter => ?_) fun _ _ => False.elim
  subst hCounted
  have hCounts : ∀ f, after.count f = s.count f := by
    apply count_of_references
    rw [hMapped, references_setEntry]
    rfl
  have hFreeAfter : after.isFree = (s.takeFrame new).isFree := by
    rw [hMapped, isFree_setEntry]
    rfl
  have hSame := SameRest.setEntry (copyFrame e.frame new (s.takeFrame new)) p page (some ⟨new, true⟩)
  rw [← hMapped] at hSame
  have hEq := hDropped.eq
  refine ⟨new, hAfter, fun q => ?_, ?_, ?_, ?_, hFree, fun q g => ?_, ?_, fun f hf => ?_,
    fun f hf hOther => ?_, ?_, fun f hNewF hOld => ?_, fun hCount => ?_⟩
  · rw [hEq]
    exact hSame.fields q
  · rw [hEq]
    exact hSame.processCount
  · rw [hEq]
    exact hSame.threads
  · rw [hEq]
    change after.kernelRanges = _
    rw [hMapped, kernelRanges_setEntry]
    rfl
  · rw [hEq]
    change after.entry q g = _
    rw [hMapped, entry_setEntry]
    rfl
  · rw [hEq]
    exact hSame.contents
  · refine (hDropped.free_of f hf).imp_left fun hBefore => isFree_takeFrame ?_
    rwa [← hFreeAfter]
  · apply hDropped.free_mono
    change after.isFree f = true
    rw [hFreeAfter]
    exact isFree_takeFrame_of_ne hf hOther
  · rw [hDropped.count_of_ne new hNe.symm, count_setCount, if_pos rfl, hCounts]
  · rw [hDropped.count_of_ne f hOld, count_setCount, if_neg hNewF, hCounts]
  · have hOwn := hDropped.count
    have hBefore : after.isFree e.frame = false := by
      rw [hFreeAfter]
      exact (update_of_ne hNe ..).trans hUsed
    rw [count_setCount, if_neg hNe, hCounts] at hOwn
    obtain ⟨hLeft, hFreed⟩ := hOwn hCount
    refine ⟨hLeft, hFreed.trans ⟨fun hEither => hEither.resolve_left ?_, .inr⟩⟩
    exact Bool.eq_false_iff.mp hBefore

end CopyOnWrite

section Write

variable {s : Memory} {thread : Thread} {id address page : Nat} {value : UInt8}
  {Ends : FaultResult → Memory → Prop} {Stops : Stop → Memory → Prop}

/-- The handler lets the stack grow, copies a page of the image, or raises a signal. -/
theorem handlePageFault_finishes (hPage : address / pageSize = page) (hStack : thread.OnMainStack)
    (hFault : s.hasTable thread.process page = false → Stops .fault s)
    (hGrow : OnStackArea page →
      Finishes (fun _ => Ends .resolved) Stops ((growStack id thread (page * pageSize)).run s))
    (hCopy : ¬OnStackArea page → (s.processes thread.process).imageStart ≤ page * pageSize →
      page * pageSize ≤ (s.processes thread.process).imageEnd → ∀ phys,
      (page * pageSize < kernelAreaStart →
        ∃ e, s.entry thread.process page = some e ∧ phys = e.frame * pageSize) →
      Finishes (fun _ => Ends .resolved) Stops
        ((copyOnWrite thread.process (page * pageSize) phys).run s))
    (hSignal : ¬OnStackArea page →
      (page * pageSize < kernelAreaStart → (s.entry thread.process page).isSome = true →
        ¬((s.processes thread.process).imageStart ≤ page * pageSize ∧
          page * pageSize ≤ (s.processes thread.process).imageEnd)) → Ends .sigsegv s) :
    Finishes Ends Stops ((handlePageFault id thread address).run s) := by
  subst hPage
  have hPage : address / pageSize * pageSize / pageSize = address / pageSize :=
    Nat.mul_div_cancel _ (by decide)
  have hTest : (thread.stackAreaStart ≤ pageAlignDown address ∧
      pageAlignDown address < thread.stackAreaEnd) ↔ OnStackArea (address / pageSize) :=
    hStack.area_iff
  unfold handlePageFault
  rw [pageAlignDown_eq] at hTest ⊢
  refine AddressSpace.virtualToPhysical_spec.bind ?_ ?_
  · rintro _ _ ⟨rfl, frame, rfl, hFrame⟩
    rw [hPage] at hFrame
    by_cases hArea : OnStackArea (address / pageSize)
    · simp only [hTest.mpr hArea, and_self, if_true]
      exact (hGrow hArea).bind (fun _ _ hEnds => .returns hEnds) fun _ _ hStops => hStops
    · simp only [mt hTest.mp hArea, if_false, run_get_bind]
      split
      · rename_i hImage
        simp only [run_get_bind]
        split
        · rename_i hMapped
          refine (hCopy hArea hImage.1 hImage.2 _ fun hUser => ?_).bind
            (fun _ _ hEnds => .returns hEnds) fun _ _ hStops => hStops
          rw [frameAt_user hUser, hPage, Option.isSome_map] at hMapped
          obtain ⟨e, hEntry⟩ := Option.isSome_iff_exists.mp hMapped
          exact ⟨e, hEntry, by rw [(hFrame hUser).2, hEntry]; rfl⟩
        · rename_i hMapped
          refine .returns (hSignal hArea fun hUser hEntry => absurd ?_ hMapped)
          rwa [frameAt_user hUser, hPage, Option.isSome_map]
      · rename_i hImage
        exact .returns (hSignal hArea fun _ _ => hImage)
  · rintro _ _ ⟨rfl, rfl, hTable⟩
    rw [hPage] at hTable
    exact hFault hTable

theorem storeByte_spec {p : Nat} : Finishes (fun _ t => ∃ frame, frameAt p address s = some frame ∧
        t = s.writeFrame frame (address % pageSize) value)
      (fun _ t => t = s) ((storeByte p address value).run s) := by
  unfold storeByte
  rw [run_get_bind]
  cases hFrame : frameAt p address s with
  | none => exact .stops rfl
  | some frame => exact .returns ⟨frame, rfl, rfl⟩

/-- A write stores the byte, or it does so after a page fault that gave the permission. -/
theorem write_finishes (hPlain : writable thread.process address s = true →
      Finishes (fun _ => Ends .resolved) Stops ((storeByte thread.process address value).run s))
    (hFault : writable thread.process address s = false →
      Finishes (fun fault u => match fault with
          | .sigsegv => Ends .sigsegv u
          | .resolved => if writable thread.process address u = true then
              Finishes (fun _ => Ends .resolved) Stops
                ((storeByte thread.process address value).run u)
            else Stops .hang u)
        Stops ((handlePageFault id thread address).run s)) :
    Finishes Ends Stops ((write id thread address value).run s) := by
  unfold write
  rw [run_get_bind]
  cases hWritable : writable thread.process address s with
  | true =>
    exact (hPlain hWritable).bind (fun _ _ hEnds => .returns hEnds) fun _ _ hStops => hStops
  | false =>
    refine (hFault hWritable).bind (fun fault u hAfter => ?_) fun _ _ hStops => hStops
    cases fault with
    | sigsegv => exact .returns hAfter
    | resolved =>
      dsimp only at hAfter ⊢
      rw [run_get_bind]
      split at hAfter
      · rename_i hNow
        rw [if_pos hNow]
        exact hAfter.bind (fun _ _ hEnds => .returns hEnds) fun _ _ hStops => hStops
      · rename_i hNow
        rw [if_neg hNow]
        exact .stops hAfter

/-- What a write can do before the byte is stored: nothing, the growth of the stack, or a copy of
a page of the image. -/
inductive WriteEffect (s : Memory) (id : Nat) (thread : Thread) (page : Nat) : Memory → Prop where
  | plain : WriteEffect s id thread page s
  | grown {u : Memory} (hArea : OnStackArea page) (hBelow : page ≤ thread.stackPage)
      (hGrown : Grown s u thread.process page (thread.stackPage - page)) :
      WriteEffect s id thread page
        { u with threads := update s.threads id (some (thread.grownTo page)) }
  | copied {u : Memory} {phys : Nat}
      (hStart : (s.processes thread.process).imageStart ≤ page * pageSize)
      (hEnd : page * pageSize ≤ (s.processes thread.process).imageEnd)
      (hCopy : (copyOnWrite thread.process (page * pageSize) phys).run s = .ok () u)
      (hMapped : page * pageSize < kernelAreaStart →
        ∃ e, s.entry thread.process page = some e ∧ phys = e.frame * pageSize) :
      WriteEffect s id thread page u

/-- A write first has the effect of its page fault, if there is one, and then changes one byte. -/
theorem write_effect (hLayout : Layout s) (hStack : thread.OnMainStack) :
    Finishes (fun _ t => ∃ u contents, WriteEffect s id thread (address / pageSize) u ∧
        t = { u with contents := contents })
      (fun _ _ => True) ((write id thread address value).run s) := by
  have hStored : ∀ u, WriteEffect s id thread (address / pageSize) u →
      Finishes (fun _ t => ∃ u contents, WriteEffect s id thread (address / pageSize) u ∧
        t = { u with contents := contents }) (fun _ _ => True)
        ((storeByte thread.process address value).run u) := by
    intro u hEffect
    refine storeByte_spec.mono ?_ fun _ _ _ => trivial
    rintro _ _ ⟨frame, -, rfl⟩
    exact ⟨u, _, hEffect, rfl⟩
  refine write_finishes (fun _ => hStored s .plain) fun hDenied => ?_
  refine handlePageFault_finishes rfl hStack (fun _ => trivial) (fun hArea => ?_)
    (fun _ hStart hEnd phys hMapped => ?_) fun _ _ => ⟨s, s.contents, .plain, rfl⟩
  · refine (growStack_spec id hLayout hStack hArea).mono ?_ fun _ _ _ => trivial
    rintro _ _ ⟨v, hGrown, rfl⟩
    dsimp only
    split
    · rename_i hWritable
      refine hStored _ (.grown hArea ?_ hGrown)
      -- above its start the stack does not grow, and the write would fault again
      by_contra hAbove
      have hSame : v.entry thread.process (address / pageSize) =
          s.entry thread.process (address / pageSize) :=
        hGrown.outside _ (.inr (.inl (by omega)))
      have hNow : writable thread.process address v = true := hWritable
      unfold writable at hNow hDenied
      rw [hSame, hDenied] at hNow
      cases hNow
    · trivial
  · refine (Finishes.of_run _).mono (fun _ u hCopy => ?_) fun _ _ _ => trivial
    dsimp only
    split
    · exact hStored u (.copied hStart hEnd hCopy hMapped)
    · trivial

end Write

end Kernel.Memory
