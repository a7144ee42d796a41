import MeetiX.Kernel.Memory.UserPages

/-! What the creation of a process does to the memory of the earlier ones: almost nothing. It
takes physical pages that were free, and the kernel writes to pages of its own. -/
namespace Kernel.Memory

open Base Function AddressRangePool Process

/-- The physical pages that the kernel works on through its own addresses. The
first page of the low memory is among them, because the kernel uses the address
0 where its ranges are used up. -/
def KernelFrame (m : Memory) (f : Nat) : Prop :=
  (∃ page, m.kernelPages page = some f) ∨ ∃ e, m.lowPages 0 = some e ∧ e.frame = f

def KernelApart (m : Memory) : Prop := ∀ f, KernelFrame m f → m.isFree f = false

/-- The kernel ranges are those of a history that began with their area. -/
def KernelRangesOk (pool : AddressRangePool.Pool) : Prop :=
  ∃ live, AddressRangePool.Invariant
    ⟨pool, [(kernelVirtualRangesStart, kernelVirtualRangesEnd)], live⟩

theorem kernelRangesOk_new : KernelRangesOk
    (initializeArea [] kernelVirtualRangesStart kernelVirtualRangesEnd) :=
  ⟨[], AddressRangePool.Invariant.empty.initializeArea (by decide) (by decide) (by decide)
    (by decide) (by simp [AddressRangePool.Ledger.empty])⟩

theorem KernelRangesOk.allocate {pool result : AddressRangePool.Pool} (h : KernelRangesOk pool)
    {requestedPages flags base : Nat}
    (hAllocate : allocate pool requestedPages flags = (base, result)) :
    KernelRangesOk result ∧ (base = 0 ∨ kernelAreaStart ≤ base) := by
  obtain ⟨live, hInv⟩ := h
  have hResult := hInv.allocate hAllocate
  refine ⟨⟨_, hResult⟩, ?_⟩
  by_cases hBase : base = 0
  · exact .inl hBase
  · simp only [hBase] at hResult
    obtain ⟨-, range, hMem, rfl, -⟩ := (hResult.live_iff base _).mp (List.mem_cons_self ..)
    obtain ⟨hMem, -⟩ := List.mem_filter.mp hMem
    exact .inr ((by decide : kernelAreaStart ≤ kernelVirtualRangesStart).trans
      (hResult.inside rfl hMem).1)

/-- The processes of a set keep all their memory, and so do the threads. New
physical pages were free before, and only these and pages of the kernel are
written to. -/
structure Spares (kept : Nat → Prop) (s t : Memory) : Prop where
  processes : ∀ q, kept q → t.processes q = s.processes q
  lowPages : t.lowPages = s.lowPages
  threads : t.threads = s.threads
  threadCount : t.threadCount = s.threadCount
  processCount : s.processCount ≤ t.processCount
  used : ∀ f, s.isFree f = false → t.isFree f = false
  kernelPages : ∀ page, (s.kernelPages page).isSome = true → (t.kernelPages page).isSome = true
  kernelFrame : ∀ f, KernelFrame t f → KernelFrame s f ∨ s.isFree f = true ∧ t.isFree f = false
  kernelRanges : KernelRangesOk s.kernelRanges → KernelRangesOk t.kernelRanges
  contents : ∀ f, s.isFree f = false → ¬KernelFrame s f → t.contents f = s.contents f

namespace Spares

variable {kept : Nat → Prop} {s t u : Memory} {f page : Nat}

theorem of_user (hProcesses : ∀ q, kept q → t.processes q = s.processes q)
    (hLow : t.lowPages = s.lowPages) (hThreads : t.threads = s.threads)
    (hThreadCount : t.threadCount = s.threadCount) (hCount : s.processCount ≤ t.processCount)
    (hUsed : ∀ f, s.isFree f = false → t.isFree f = false)
    (hPages : t.kernelPages = s.kernelPages) (hRanges : t.kernelRanges = s.kernelRanges)
    (hContents : t.contents = s.contents) : Spares kept s t where
  processes := hProcesses
  lowPages := hLow
  threads := hThreads
  threadCount := hThreadCount
  processCount := hCount
  used := hUsed
  kernelPages page h := by rwa [hPages]
  kernelFrame f h := by
    unfold KernelFrame at h ⊢
    rw [hPages, hLow] at h
    exact .inl h
  kernelRanges h := by rwa [hRanges]
  contents f _ _ := by rw [hContents]

theorem refl (kept : Nat → Prop) (s : Memory) : Spares kept s s :=
  of_user (fun _ _ => rfl) rfl rfl rfl (le_refl _) (fun _ h => h) rfl rfl rfl

section

variable (h : Spares kept s t)

include h

theorem not_kernelFrame (hUsed : s.isFree f = false)
    (hKernel : ¬KernelFrame s f) : ¬KernelFrame t f := by
  intro hLater
  rcases h.kernelFrame f hLater with hFrame | ⟨hFree, -⟩
  · exact hKernel hFrame
  · rw [hUsed] at hFree
    cases hFree

theorem kernelApart (hApart : KernelApart s) : KernelApart t := by
  intro f hFrame
  rcases h.kernelFrame f hFrame with hBefore | ⟨-, hUsed⟩
  · exact h.used f (hApart f hBefore)
  · exact hUsed

theorem isFree_of (hFree : t.isFree f = true) : s.isFree f = true := by
  cases hBefore : s.isFree f with
  | true => rfl
  | false => rw [h.used f hBefore] at hFree; cases hFree

theorem trans (h' : Spares kept t u) : Spares kept s u where
  processes q hq := (h'.processes q hq).trans (h.processes q hq)
  lowPages := h'.lowPages.trans h.lowPages
  threads := h'.threads.trans h.threads
  threadCount := h'.threadCount.trans h.threadCount
  processCount := h.processCount.trans h'.processCount
  used f hf := h'.used f (h.used f hf)
  kernelPages page hPage := h'.kernelPages page (h.kernelPages page hPage)
  kernelFrame f hf := by
    rcases h'.kernelFrame f hf with hMiddle | ⟨hFree, hUsed⟩
    · exact (h.kernelFrame f hMiddle).imp_right fun hNew => ⟨hNew.1, h'.used f hNew.2⟩
    · exact .inr ⟨h.isFree_of hFree, hUsed⟩
  kernelRanges hRanges := h'.kernelRanges (h.kernelRanges hRanges)
  contents f hf hKernel :=
    (h'.contents f (h.used f hf) (h.not_kernelFrame hf hKernel)).trans (h.contents f hf hKernel)

theorem mono {kept' : Nat → Prop} (hKept : ∀ q, kept' q → kept q) : Spares kept' s t :=
  { h with processes := fun q hq => h.processes q (hKept q hq) }

end

theorem takeFrame (kept : Nat → Prop) (s : Memory) (frame : Nat) :
    Spares kept s (s.takeFrame frame) := by
  refine of_user (fun _ _ => rfl) rfl rfl rfl (le_refl _) (fun f hf => ?_) rfl rfl rfl
  by_cases hEq : f = frame
  · simp [Memory.takeFrame, hEq]
  · simpa [Memory.takeFrame, hEq] using hf

theorem modifyProcess (s : Memory) (p : Nat) (change : Process → Process) :
    Spares (· ≠ p) s (s.modifyProcess p change) :=
  of_user (fun q hq => by simp [hq]) rfl rfl rfl (le_refl _) (fun _ h => h) rfl rfl rfl

theorem insertProcess (s : Memory) (process : Process) :
    Spares (· ≠ s.processCount) s (insertProcess process s) :=
  of_user (fun q hq => by simp [Memory.insertProcess, hq]) rfl rfl rfl (Nat.le_succ _)
    (fun _ h => h) rfl rfl rfl

theorem setEntry (s : Memory) (p : Nat) (hPage : tableEntries ≤ page)
    (value : Option PageEntry) : Spares (· ≠ p) s (s.setEntry p page value) := by
  unfold Memory.setEntry
  rw [if_neg (by omega)]
  exact modifyProcess s p _

theorem tabled {p : Nat} (h : Tabled s p page t) : Spares (· ≠ p) s t := by
  cases h with
  | present => exact refl _ s
  | created => exact (takeFrame _ s _).trans (modifyProcess _ p _)

theorem write (h : Spares kept s t) {f : Nat} (hFrame : s.isFree f = true ∨ KernelFrame s f)
    (content : Nat → UInt8) :
    Spares kept s { t with contents := update t.contents f content } :=
  { h with
    contents := by
      intro g hUsed hKernel
      have hNe : g ≠ f := by
        rintro rfl
        rcases hFrame with hFree | hFrame
        · rw [hUsed] at hFree
          cases hFree
        · exact hKernel hFrame
      exact (update_of_ne hNe ..).trans (h.contents g hUsed hKernel) }

/-- The kernel may map a page that it has just taken. -/
theorem setKernelPage (h : Spares kept s t) (page : Nat) (hFree : s.isFree f = true)
    (hUsed : t.isFree f = false) :
    Spares kept s (t.setKernelPage page f) :=
  { h with
    kernelPages := by
      intro other hOther
      by_cases hEq : other = page
      · simp [Memory.setKernelPage, hEq]
      · simpa [Memory.setKernelPage, hEq] using h.kernelPages other hOther
    kernelFrame := by
      rintro g (⟨other, hOther⟩ | hLow)
      · by_cases hEq : other = page
        · subst hEq
          simp only [Memory.setKernelPage, update_self, Option.some.injEq] at hOther
          exact .inr (hOther ▸ ⟨hFree, hUsed⟩)
        · simp only [Memory.setKernelPage, update_of_ne hEq] at hOther
          exact h.kernelFrame g (.inl ⟨other, hOther⟩)
      · exact h.kernelFrame g (.inr hLow) }

theorem entry (h : Spares kept s t) {q : Nat} (hq : kept q) (page : Nat) :
    t.entry q page = s.entry q page := by
  unfold Memory.entry
  rw [h.lowPages, h.processes q hq]

end Spares

/-! The stack of the kernel. -/

section KernelStack

variable {s t : Memory}
variable {virtualAddr base : Nat} {reason : Stop}

theorem frameAt_kernel {f : Nat} (hAddr : virtualAddr = 0 ∨ kernelAreaStart ≤ virtualAddr)
    (h : frameAt 0 virtualAddr s = some f) : KernelFrame s f := by
  unfold frameAt at h
  rcases hAddr with rfl | hKernel
  · obtain ⟨e, hEntry, rfl⟩ := Option.map_eq_some_iff.mp h
    exact .inr ⟨e, by simpa [entry, tableEntries] using hEntry, rfl⟩
  · rw [if_pos hKernel] at h
    exact .inl ⟨_, h⟩

theorem allocateKernelRange_spec :
    Finishes (fun base t => ∃ pool, allocate s.kernelRanges 1 rangeFlagNone =
        (base, pool) ∧ t = { s with kernelRanges := pool })
      (fun _ _ => False) (allocateKernelRange.run s) :=
  .returns ⟨_, rfl, rfl⟩

theorem AddressSpace.mapKernel_spec {physicalAddr : Nat} :
    Finishes (fun _ t => t = s ∧ (virtualAddr < kernelAreaStart ∧
          (s.lowPages (virtualAddr / pageSize)).isSome = true ∨
          kernelAreaStart ≤ virtualAddr ∧ (s.kernelPages (virtualAddr / pageSize)).isSome = true) ∨
        kernelAreaStart ≤ virtualAddr ∧
          t = s.setKernelPage (virtualAddr / pageSize) (physicalAddr / pageSize))
      (fun _ _ => virtualAddr < kernelAreaStart ∧
        (s.lowPages (virtualAddr / pageSize)).isSome = false)
      ((AddressSpace.mapKernel virtualAddr physicalAddr).run s) := by
  unfold AddressSpace.mapKernel
  rw [run_get_bind]
  by_cases hUser : virtualAddr < kernelAreaStart
  · rw [if_pos hUser]
    by_cases hLow : (s.lowPages (virtualAddr / pageSize)).isSome = true
    · rw [if_pos hLow]
      exact .returns (.inl ⟨rfl, .inl ⟨hUser, hLow⟩⟩)
    · rw [if_neg hLow]
      exact .stops ⟨hUser, by simpa using hLow⟩
  · rw [if_neg hUser]
    by_cases hMapped : (s.kernelPages (virtualAddr / pageSize)).isSome = true
    · rw [if_pos hMapped]
      exact .returns (.inl ⟨rfl, .inr ⟨by omega, hMapped⟩⟩)
    · rw [if_neg hMapped]
      exact .returns (.inr ⟨by omega, rfl⟩)

/-- An address at which the kernel has a stack: a page of the kernel ranges, or the address 0
where they were used up. -/
def KernelStackAt (m : Memory) (virtualAddr : Nat) : Prop :=
  (virtualAddr = 0 ∨ kernelAreaStart ≤ virtualAddr) ∧ (frameAt 0 virtualAddr m).isSome = true

theorem KernelStackAt.spares {kept : Nat → Prop} (h : KernelStackAt s virtualAddr)
    (hSpares : Spares kept s t) : KernelStackAt t virtualAddr := by
  refine ⟨h.1, ?_⟩
  have hFrame := h.2
  unfold frameAt at hFrame ⊢
  rcases h.1 with rfl | hKernel
  · rw [if_neg (by decide)] at hFrame ⊢
    simpa [entry, tableEntries, hSpares.lowPages] using hFrame
  · rw [if_pos hKernel] at hFrame ⊢
    exact hSpares.kernelPages _ hFrame

theorem mapKernelStack_spec {pool : AddressRangePool.Pool} (hRanges : KernelRangesOk s.kernelRanges)
    (hPool : allocate s.kernelRanges 1 rangeFlagNone = (base, pool)) :
    Finishes (fun _ t => Spares (fun _ => True) s t ∧ t.references = s.references ∧
        KernelStackAt t base)
      (fun reason t => (base = 0 → (s.lowPages 0).isSome = true) → Starved reason t)
      ((PPallocator.allocate >>= fun phys => AddressSpace.mapKernel base phys).run
        { s with kernelRanges := pool }) := by
  obtain ⟨hResult, hBase⟩ := hRanges.allocate hPool
  have hFirst : Spares (fun _ => True) s { s with kernelRanges := pool } :=
    { Spares.refl _ s with kernelRanges := fun _ => hResult }
  refine PPallocator.allocate_spec.bind ?_ fun _ _ hStop _ => hStop.2
  rintro _ _ ⟨frame, rfl, -, hFree, rfl⟩
  have hSecond := hFirst.trans (.takeFrame _ _ frame)
  refine AddressSpace.mapKernel_spec.mono ?_ ?_
  · rw [Nat.mul_div_cancel _ (by decide : 0 < pageSize)]
    rintro _ _ (⟨rfl, ⟨hUser, hLow⟩ | ⟨hKernel, hMapped⟩⟩ | ⟨hKernel, rfl⟩)
    · have hZero : base = 0 := hBase.resolve_right (by omega)
      subst hZero
      rw [KernelStackAt, frameAt, if_neg (by decide)]
      refine ⟨hSecond, rfl, .inl rfl, ?_⟩
      simpa [entry, tableEntries] using hLow
    · rw [KernelStackAt, frameAt, if_pos hKernel]
      exact ⟨hSecond, rfl, hBase, hMapped⟩
    · have hUsed : ({ s with kernelRanges := pool }.takeFrame frame).isFree frame = false := by
        simp [takeFrame]
      rw [KernelStackAt, frameAt, if_pos hKernel]
      exact ⟨hSecond.setKernelPage _ hFree hUsed, rfl, hBase, by simp [setKernelPage]⟩
  · rintro _ _ ⟨hUser, hUnmapped⟩ hLow
    have hZero : base = 0 := hBase.resolve_right (by omega)
    subst hZero
    change (s.lowPages 0).isSome = false at hUnmapped
    rw [hLow rfl] at hUnmapped
    cases hUnmapped

theorem createThreadKernelStack_spec (hRanges : KernelRangesOk s.kernelRanges) :
    Finishes (fun stack t => Spares (fun _ => True) s t ∧ t.references = s.references ∧
        ∀ base, stack = some base → KernelStackAt t base)
      Starved (createThreadKernelStack.run s) := by
  refine allocateKernelRange_spec.bind ?_ fun _ _ => False.elim
  rintro base _ ⟨pool, hPool, rfl⟩
  by_cases hBase : base = 0
  · rw [if_pos hBase]
    exact .returns ⟨{ Spares.refl _ s with kernelRanges := fun _ => (hRanges.allocate hPool).1 },
      rfl, fun _ hNone => by cases hNone⟩
  · rw [if_neg hBase, ← bind_assoc]
    refine (mapKernelStack_spec hRanges hPool).bind ?_
      fun _ _ hStop => hStop fun hZero => absurd hZero hBase
    rintro _ t ⟨hSpares, hCounts, hStack⟩
    refine .returns ⟨hSpares, hCounts, fun found hFound => ?_⟩
    cases hFound
    exact hStack

theorem copyPage_spec {space address target : Nat} :
    Finishes (fun _ t => ∃ source, frameAt space address s = some source ∧
        t = copyFrame source (target / pageSize) s)
      (fun _ _ => frameAt space address s = none) ((copyPage space address target).run s) := by
  unfold copyPage
  rw [run_get_bind]
  cases hFrame : frameAt space address s with
  | none => exact .stops rfl
  | some source => exact .returns ⟨source, rfl, rfl⟩

theorem cloneKernelStack_spec {sourceThread : Thread} (hRanges : KernelRangesOk s.kernelRanges) :
    Finishes (fun base t => Spares (fun _ => True) s t ∧ t.references = s.references ∧
        KernelStackAt t base)
      (fun reason t => (s.lowPages 0).isSome = true →
        KernelStackAt s sourceThread.kernelStackPageVirt → Starved reason t)
      ((cloneKernelStack sourceThread).run s) := by
  refine allocateKernelRange_spec.bind ?_ nofun
  rintro base _ ⟨pool, hPool, rfl⟩
  rw [← bind_assoc]
  refine (mapKernelStack_spec hRanges hPool).bind ?_ fun _ _ hStop hLow _ => hStop fun _ => hLow
  rintro _ third ⟨hSpares, hCounts, hStack⟩
  obtain ⟨frame, hFrame⟩ := Option.isSome_iff_exists.mp hStack.2
  rw [run_get_bind, hFrame]
  refine copyPage_spec.bind ?_ ?_
  · rintro _ _ ⟨source, -, rfl⟩
    have hTarget : s.isFree frame = true ∨ KernelFrame s frame :=
      (hSpares.kernelFrame frame (frameAt_kernel hStack.1 hFrame)).symm.imp_left And.left
    rw [← Nat.mul_div_cancel frame (by decide : 0 < pageSize)] at hTarget
    have hWritten := hSpares.write hTarget (third.contents source)
    exact .returns ⟨hWritten, hCounts, hStack⟩
  · rintro _ _ hNone - hSource
    have hFound := (hSource.spares hSpares).2
    rw [hNone] at hFound
    cases hFound

end KernelStack

/-! The pages of a user stack. -/

section UserStack

variable {s t : Memory} {p virtualAddr : Nat}

theorem Tabled.kernelPages_eq {page : Nat} (h : Tabled s p page t) : t.kernelPages = s.kernelPages := by
  cases h <;> rfl

theorem kernelPages_setEntry (m : Memory) (p page : Nat) (value : Option PageEntry) :
    (m.setEntry p page value).kernelPages = m.kernelPages := by
  unfold setEntry
  split
  · rfl
  · rfl

structure StackPage (s t : Memory) (p page frame : Nat) : Prop where
  spares : Spares (· ≠ p) s t
  references : t.references = s.references
  kernelPages : t.kernelPages = s.kernelPages
  layout : Layout t
  rest : SameRest s t
  fresh : s.isFree frame = true
  used : t.isFree frame = false
  entry : ∀ g, t.entry p g = if g = page then some ⟨frame, true⟩ else s.entry p g

/-- The page is mapped to a free physical page, or the memory is used up. -/
theorem mapStackPage_spec {allowOverride : Bool} (hLayout : Layout s)
    (hPage : tableEntries ≤ virtualAddr / pageSize) :
    Finishes (fun phys t => ∃ frame, phys = frame * pageSize ∧
        StackPage s t p (virtualAddr / pageSize) frame)
      (fun reason t => virtualAddr % pageSize = 0 →
        (allowOverride = false → s.entry p (virtualAddr / pageSize) = none) → Starved reason t)
      ((mapStackPage p virtualAddr allowOverride).run s) := by
  refine PPallocator.allocate_spec.bind ?_ fun _ _ hStop _ _ => hStop.2
  rintro _ _ ⟨frame, rfl, -, hFree, rfl⟩
  have hTaken : Layout (s.takeFrame frame) := hLayout.of_spaces rfl rfl
  refine AddressSpace.mapToTemporaryMappedDirectory_spec.bind ?_ ?_
  · rintro _ _ ⟨-, -, u, hTabled, -, rfl⟩
    rw [Nat.mul_div_cancel _ (by decide : 0 < pageSize)]
    have hSpares : Spares (· ≠ p) s u := (Spares.takeFrame _ s frame).trans (.tabled hTabled)
    have hTake : SameRest s (s.takeFrame frame) := .of_spaces rfl rfl rfl rfl
    have hRest : SameRest s u := hTake.trans (.tabled hTabled)
    refine .returns ⟨frame, rfl, hSpares.trans (.setEntry u p hPage _), ?_, ?_,
      (hTaken.tabled hTabled).setEntry hTabled.hasTable, hRest.trans (.setEntry ..), hFree, ?_,
      fun page => ?_⟩
    · rw [references_setEntry, hTabled.references_eq]
      rfl
    · rw [kernelPages_setEntry, Tabled.kernelPages_eq hTabled]
      rfl
    · rw [isFree_setEntry]
      exact (Spares.tabled hTabled).used frame (by simp [takeFrame])
    · rw [entry_setEntry, hTabled.entry_eq hTaken]
      simp
  · rintro _ _ ⟨-, hStop⟩ hAligned hUnmapped
    refine (hStop hAligned (Nat.mul_mod_left ..)).resolve_right ?_
    rintro ⟨hTabled, hRefused⟩
    rw [hTabled.entry_eq hTaken, entry_takeFrame] at hRefused
    cases allowOverride with
    | true => simp at hRefused
    | false =>
      rw [hUnmapped rfl] at hRefused
      cases hRefused

end UserStack

/-! The main thread. -/

/-- The first page of the stack. -/
abbrev Thread.stackPage (thread : Thread) : Nat := thread.userStackAreaStart / pageSize

/-- The stack of a main thread. The range for it is the first one that its process allocates, so
it is the same in all processes. -/
structure Thread.OnMainStack (thread : Thread) : Prop where
  pages_pos : 1 ≤ thread.userStackPages
  pages_le : thread.userStackPages ≤ threadUserStackReservedVirtualPages
  stop_eq : thread.userStackAreaStart + thread.userStackPages * pageSize =
    userVirtualRangesStart + threadUserStackReservedVirtualPages * pageSize

namespace Thread.OnMainStack

variable {thread : Thread}

variable (h : thread.OnMainStack)

include h

theorem page_eq {i : Nat} (hi : i < thread.userStackPages) :
    pageAddress thread.userStackAreaStart i = thread.userStackAreaStart + i * pageSize ∧
      pageAddress thread.userStackAreaStart i / pageSize = thread.stackPage + i ∧
      pageAddress thread.userStackAreaStart i < kernelAreaStart := by
  have hStop := h.stop_eq
  unfold userVirtualRangesStart threadUserStackReservedVirtualPages pageSize at hStop
  have hAddress : pageAddress thread.userStackAreaStart i =
      thread.userStackAreaStart + i * pageSize := by
    apply pageAddress_eq
    unfold pageSize wordSize
    omega
  refine ⟨hAddress, by rw [hAddress, page_add], ?_⟩
  rw [hAddress]
  unfold pageSize kernelAreaStart
  omega

theorem aligned : thread.userStackAreaStart % pageSize = 0 := by
  have hStop := h.stop_eq
  unfold userVirtualRangesStart pageSize at *
  omega

theorem high : tableEntries ≤ thread.stackPage := by
  have hStop := h.stop_eq
  have hPages := h.pages_le
  unfold stackPage userVirtualRangesStart pageSize tableEntries at *
  omega

/-- The child of a fork gets its stack at the same address. -/
theorem start_eq : pageAddress userVirtualRangesStart
      (threadUserStackReservedVirtualPages - thread.userStackPages) = thread.userStackAreaStart := by
  have hStop := h.stop_eq
  have hPages := h.pages_le
  rw [pageAddress_eq]
  · unfold pageSize at *
    omega
  · unfold userVirtualRangesStart threadUserStackReservedVirtualPages pageSize wordSize at *
    omega

end Thread.OnMainStack

/-- The ranges of a process that has only allocated the stack of its main thread. -/
def mainRanges : AddressRangePool.Pool :=
  (allocate (new 0).virtualRanges threadUserStackReservedVirtualPages
    rangeFlagNone).2

theorem allocate_first (securityLevel : Nat) : allocate (new securityLevel).virtualRanges
      threadUserStackReservedVirtualPages rangeFlagNone = (userVirtualRangesStart, mainRanges) := rfl

theorem entry_high {m : Memory} {p page : Nat} (hPage : tableEntries ≤ page) :
    m.entry p page = (m.processes p).pages page := by
  unfold entry
  rw [if_neg (by omega)]

def mainStackPage : Nat :=
  userVirtualRangesStart / pageSize + (threadUserStackReservedVirtualPages - 1)

def Thread.main (p kernelStackVirt : Nat) : Thread where
  process := p
  isMain := true
  kernelStackPageVirt := kernelStackVirt
  userStackAreaStart := mainStackPage * pageSize
  userStackPages := 1

theorem Thread.main_onMainStack (p kernelStackVirt : Nat) :
    (Thread.main p kernelStackVirt).OnMainStack where
  pages_pos := le_refl 1
  pages_le := by simp [Thread.main, threadUserStackReservedVirtualPages]
  stop_eq := by
    simp [Thread.main, mainStackPage, userVirtualRangesStart, threadUserStackReservedVirtualPages,
      pageSize]

section Creation

variable {s t : Memory} {p : Nat}
variable {securityLevel : Nat}

/-- The page of a new stack and the range it belongs to. -/
structure StackCreated (s t : Memory) (p : Nat) : Prop where
  layout : Layout t
  spares : Spares (· ≠ p) s t
  references : t.references = s.references
  fields : (t.processes p).fields = ((s.processes p).setRanges mainRanges).fields
  stack : ∃ frame, s.isFree frame = true ∧ t.isFree frame = false ∧
    (KernelApart s → ¬KernelFrame t frame) ∧
    ∀ page, t.entry p page = if page = mainStackPage then some ⟨frame, true⟩ else s.entry p page

theorem run_createThreadUserStack
    (hRanges : (s.processes p).virtualRanges = (new securityLevel).virtualRanges) :
    (createThreadUserStack p).run s =
      (mapStackPage p (mainStackPage * pageSize) false >>= fun _ =>
        pure (some (mainStackPage * pageSize))).run
          (s.modifyProcess p (setRanges mainRanges)) := by
  have hRange : (allocateRange p threadUserStackReservedVirtualPages rangeFlagNone).run s =
      .ok userVirtualRangesStart (s.modifyProcess p (setRanges mainRanges)) := by
    change EStateM.Result.ok _ _ = _
    rw [hRanges, allocate_first]
  unfold createThreadUserStack
  rw [run_bind, hRange]
  rfl

theorem createThreadUserStack_spec (hLayout : Layout s)
    (hRanges : (s.processes p).virtualRanges = (new securityLevel).virtualRanges) :
    Finishes (fun stack t => stack = some (mainStackPage * pageSize) ∧ StackCreated s t p)
      (fun reason t => s.entry p mainStackPage = none → Starved reason t)
      ((createThreadUserStack p).run s) := by
  have hMain : RangesOk mainRanges := rangesOk_new.allocate threadUserStackReservedVirtualPages 0
  have hRanged : Layout (s.modifyProcess p (setRanges mainRanges)) :=
    hLayout.modifyProcess p (setRanges mainRanges) hMain (fun _ => rfl) fun _ => rfl
  have hPage : mainStackPage * pageSize / pageSize = mainStackPage := Nat.mul_div_cancel _ (by decide)
  rw [run_createThreadUserStack hRanges]
  refine (mapStackPage_spec hRanged (by decide)).bind ?_ ?_
  · rintro _ t ⟨frame, -, hStack⟩
    rw [hPage] at hStack
    have hLater : Spares (· ≠ p) s t := (Spares.modifyProcess s p _).trans hStack.spares
    refine .returns ⟨rfl, hStack.layout, hLater, hStack.references, ?_, frame, hStack.fresh,
      hStack.used, ?_, fun page => ?_⟩
    · rw [hStack.rest.fields]
      simp
    · intro hApart hFrame
      unfold KernelFrame at hFrame
      rw [hStack.kernelPages, hLater.lowPages] at hFrame
      have hInUse := hApart frame hFrame
      have hFree : s.isFree frame = true := hStack.fresh
      rw [hFree] at hInUse
      cases hInUse
    · rw [hStack.entry, entry_setRanges]
  · intro _ _ hStop hUnmapped
    refine hStop (Nat.mul_mod_left ..) fun _ => ?_
    rw [entry_setRanges]
    exact hUnmapped

/-- The state after the creation of a process. It has no main thread when the kernel ranges are
used up. -/
structure Created (s t : Memory) (securityLevel p : Nat) (mainThread : Option Nat) : Prop where
  process_eq : p = s.processCount
  layout : Layout t
  processCount : s.processCount < t.processCount
  references : t.references = s.references
  spares : ∃ u, Spares (· ≠ p) s u ∧ (mainThread = none → t = u) ∧
    ∀ id, mainThread = some id → id = s.threadCount ∧
      ∃ kernelStackVirt, KernelStackAt u kernelStackVirt ∧
        t = { u with threads := update s.threads id (some (Thread.main p kernelStackVirt))
                     threadCount := s.threadCount + 1 }
  unthreaded : mainThread = none → t.processes p = new securityLevel
  fields : mainThread.isSome = true →
    (t.processes p).fields = ((new securityLevel).setRanges mainRanges).fields
  stack : mainThread.isSome = true → ∃ frame, s.isFree frame = true ∧ t.isFree frame = false ∧
    (KernelApart s → ¬KernelFrame t frame) ∧
    ∀ page, tableEntries ≤ page → t.entry p page =
      if page = mainStackPage then some ⟨frame, true⟩ else none

/-- The creation of a process only stops when there is no memory left. -/
theorem createProcess_spec (hLayout : Layout s) (hRanges : KernelRangesOk s.kernelRanges) :
    Finishes (fun created t => Created s t securityLevel created.1 created.2) Starved
      ((createProcess securityLevel).run s) := by
  refine .of_keeps (inferInstance : Keeps Layout (createProcess securityLevel)) hLayout ?_
  refine PPallocator.allocate_spec.bind ?_ fun _ _ hStop => hStop.2
  rintro _ _ ⟨frame, -, -, -, rfl⟩
  refine (Finishes.of_run _).bind (fun p first hAdd => ?_) nofun
  cases hAdd
  generalize ha : insertProcess (new securityLevel) (s.takeFrame frame) = a
  have hInserted : Spares (· ≠ s.processCount) s a := by
    rw [← ha]
    exact (Spares.takeFrame _ s frame).trans (.insertProcess (s.takeFrame frame) _)
  have hLayoutA : Layout a := by
    have hTaken : Layout (s.takeFrame frame) := hLayout.of_spaces rfl rfl
    rw [← ha]
    exact hTaken.setProcess _ _ rangesOk_new (fun _ _ _ => rfl) rfl
  have hReferencesA : a.references = s.references := by
    rw [← ha]
    rfl
  have hNew : a.processes s.processCount = new securityLevel := by
    rw [← ha]
    exact update_self s.processCount _ s.processes
  have hCountA : a.processCount = s.processCount + 1 := by
    rw [← ha]
    rfl
  have hKeepsKernel : Keeps Layout createThreadKernelStack := inferInstance
  unfold createThread
  rw [bind_assoc]
  refine ((createThreadKernelStack_spec (hInserted.kernelRanges hRanges)).and
    (hKeepsKernel.finishes _ hLayoutA)).bind ?_ fun _ _ hStop => hStop.1
  rintro kernelStack b ⟨⟨hSpares, hReferences, hStackAt⟩, hLayoutB⟩
  have hBefore : Spares (· ≠ s.processCount) s b :=
    hInserted.trans (hSpares.mono fun _ _ => trivial)
  have hCountB := hSpares.processCount
  have hNewB : b.processes s.processCount = new securityLevel :=
    (hSpares.processes _ trivial).trans hNew
  cases kernelStack with
  | none =>
    exact .returns fun hAfter => ⟨rfl, hAfter, by omega, hReferences.trans hReferencesA,
      ⟨_, hBefore, fun _ => rfl, nofun⟩, fun _ => hNewB, nofun, nofun⟩
  | some kernelStackVirt =>
    rw [bind_assoc]
    refine (createThreadUserStack_spec hLayoutB (congrArg virtualRanges hNewB)).bind ?_ ?_
    · rintro _ c ⟨rfl, hCreated⟩
      have hLater : Spares (· ≠ s.processCount) s c := hBefore.trans hCreated.spares
      have hCountC := hCreated.spares.processCount
      refine .returns fun hAfter => ?_
      refine ⟨rfl, hAfter, ?_, ?_, ⟨c, hLater, nofun, fun id hId => ?_⟩, nofun, fun _ => ?_,
        fun _ => ?_⟩
      · change s.processCount < c.processCount
        omega
      · exact (hCreated.references.trans hReferences).trans hReferencesA
      · cases hId
        refine ⟨hLater.threadCount, kernelStackVirt, ?_, ?_⟩
        · exact (hStackAt kernelStackVirt rfl).spares hCreated.spares
        · rw [hLater.threads, hLater.threadCount]
          rfl
      · change (c.processes s.processCount).fields = _
        rw [hCreated.fields, hNewB]
      · obtain ⟨stackFrame, hFree, hUsed, hNotKernel, hEntry⟩ := hCreated.stack
        refine ⟨stackFrame, hBefore.isFree_of hFree, hUsed, ?_, fun page hPage => ?_⟩
        · intro hApart
          exact hNotKernel (hBefore.kernelApart hApart)
        · change c.entry s.processCount page = _
          rw [hEntry, entry_high hPage, hNewB]
          rfl
    · intro _ _ hStop
      apply hStop
      rw [entry_high (by decide), hNewB]
      rfl

end Creation

/-- The kernel has ranges of its own, and the allocator gives none of its pages away. -/
structure KernelSound (m : Memory) : Prop where
  ranges : KernelRangesOk m.kernelRanges
  low : (m.lowPages 0).isSome = true
  apart : KernelApart m

theorem KernelSound.spares {kept : Nat → Prop} {s t : Memory} (h : KernelSound s)
    (hSpares : Spares kept s t) : KernelSound t where
  ranges := hSpares.kernelRanges h.ranges
  low := by
    rw [hSpares.lowPages]
    exact h.low
  apart := hSpares.kernelApart h.apart

/-- After boot the kernel has its ranges, and what it maps is not free. -/
theorem boot_kernelSound {isFree : Nat → Bool} {kernelPages : Nat → Option Nat}
    (freePageCount : Nat) (contents : Nat → Nat → UInt8)
    (hUsed : ∀ page f, kernelPages page = some f → isFree f = false) :
    KernelSound (boot isFree freePageCount contents kernelPages
      (initializeArea [] kernelVirtualRangesStart kernelVirtualRangesEnd)) where
  ranges := kernelRangesOk_new
  low := rfl
  apart f hFrame := by
    unfold boot
    rcases hFrame with ⟨page, hPage⟩ | ⟨e, he, rfl⟩
    · simp [hUsed page f hPage]
    · cases he
      rfl

end Kernel.Memory
