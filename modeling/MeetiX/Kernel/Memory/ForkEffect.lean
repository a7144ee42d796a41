import MeetiX.Kernel.Memory.ProcessCreation

/-! What a fork does. Between the lowest 4 MiB and the virtual ranges the child gets the pages of
its parent, each counted once more and writable for neither. The stacks are copied. -/
namespace Kernel.Memory

open Base Function Process

/-! The count of the pages that a fork shares. -/

section Counts

variable {s a b : Memory} {parent : Nat}

/-- One more reference, in 16 bits. -/
def bump (count : Int) : Int := Int.bmod (count + 1) 65536

/-- The pages that a fork shares. -/
abbrev copiedPages : Finset Nat := .Ico tableEntries (userVirtualRangesStart / pageSize)

/-- How many of the pages are mapped to the physical page. -/
def copies (m : Memory) (parent : Nat) (pages : Finset Nat) (f : Nat) : Nat :=
  (pages.filter fun page => (m.entry parent page).map PageEntry.frame = some f).card

/-- Physical pages were taken, and each of the pages was counted once. -/
structure CountedCopies (s t : Memory) (parent : Nat) (pages : Finset Nat) : Prop where
  eq : t = { s with
    isFree := t.isFree, freePageCount := t.freePageCount, references := t.references }
  used : ∀ f, s.isFree f = false → t.isFree f = false
  count : ∀ f, t.count f = bump^[copies s parent pages f] (s.count f)

namespace CountedCopies

variable {pages : Finset Nat} {t : Memory}

theorem refl (s : Memory) (parent : Nat) : CountedCopies s s parent ∅ where
  eq := rfl
  used _ h := h
  count f := by simp [copies]

theorem spares (h : CountedCopies s t parent pages) (kept : Nat → Prop) : Spares kept s t :=
  .of_user (fun q _ => congrArg (fun m => m.processes q) h.eq) (congrArg (·.lowPages) h.eq)
    (congrArg (·.threads) h.eq) (congrArg (·.threadCount) h.eq)
    (congrArg (·.processCount) h.eq).ge h.used (congrArg (·.kernelPages) h.eq)
    (congrArg (·.kernelRanges) h.eq) (congrArg (·.contents) h.eq)

theorem takeFrame (h : CountedCopies s a parent pages) (frame : Nat) :
    CountedCopies s (a.takeFrame frame) parent pages where
  eq := by
    conv_lhs => rw [h.eq]
    rfl
  used f hf := (Spares.takeFrame (fun _ => True) a frame).used f (h.used f hf)
  count := h.count

theorem of_takeFrame {frame : Nat}
    (h : CountedCopies (s.takeFrame frame) t parent pages) : CountedCopies s t parent pages where
  eq := h.eq
  used f hf := h.used f ((Spares.takeFrame (fun _ => True) s frame).used f hf)
  count := h.count

theorem layout (h : CountedCopies s t parent pages) (hLayout : Layout s) : Layout t :=
  hLayout.of_spaces (congrArg (·.lowPages) h.eq) (congrArg (·.processes) h.eq)

theorem of_none {more : Finset Nat} (h : CountedCopies s a parent pages)
    (hSub : pages ⊆ more) (hNone : ∀ page ∈ more, page ∉ pages → s.entry parent page = none) :
    CountedCopies s a parent more where
  eq := h.eq
  used := h.used
  count f := by
    have hCopies : copies s parent more f = copies s parent pages f := by
      unfold copies
      congr 1
      ext page
      simp only [Finset.mem_filter]
      refine ⟨fun ⟨hMore, hFrame⟩ => ⟨?_, hFrame⟩, fun ⟨hPage, hFrame⟩ => ⟨hSub hPage, hFrame⟩⟩
      by_contra hPage
      simp [hNone page hMore hPage] at hFrame
    rw [h.count, hCopies]

theorem add {page : Nat} (h : CountedCopies s a parent pages)
    (hPage : page ∉ pages) (hRun : (countCopy parent page).run a = .ok () b) :
    CountedCopies s b parent (insert page pages) := by
  have hEntry : a.entry parent page = s.entry parent page :=
    (h.spares fun _ => True).entry trivial page
  obtain ⟨_, _, hGet, hRun⟩ := bind_returns_iff.mp hRun
  cases hGet
  cases hFound : a.entry parent page with
  | none =>
    rw [hFound] at hRun
    cases hRun
    refine h.of_none (Finset.subset_insert ..) fun other hOther hNot => ?_
    rw [(Finset.mem_insert.mp hOther).resolve_right hNot, ← hEntry, hFound]
  | some e =>
    rw [hFound] at hRun
    cases hRun
    change CountedCopies s (a.setCount (e.frame * pageSize / pageSize)
      (bump (a.count (e.frame * pageSize / pageSize)))) parent _
    rw [Nat.mul_div_cancel _ (by decide : 0 < pageSize)]
    refine ⟨?_, h.used, fun f => ?_⟩
    · conv_lhs => rw [h.eq]
      rfl
    · rw [count_setCount, copies, Finset.filter_insert, ← hEntry, hFound]
      by_cases hf : f = e.frame
      · subst hf
        rw [if_pos rfl, Option.map_some, if_pos rfl, Finset.card_insert_of_notMem (by simp [hPage]),
          iterate_succ_apply', h.count, copies]
      · rw [if_neg hf, Option.map_some, if_neg (fun hEq => hf (Option.some.inj hEq).symm), h.count,
          copies]

theorem range {low first : Nat} (count : Nat) (hLow : low ≤ first)
    (h : CountedCopies s a parent (Finset.Ico low first))
    (hRun : (loop (fun i => countCopy parent (first + i)) (List.range count)).run a = .ok () b) :
    CountedCopies s b parent (Finset.Ico low (first + count)) := by
  rw [List.range_eq_range'] at hRun
  have hEnd := loop_returns
    (fun i m => CountedCopies s m parent (Finset.Ico low (first + i))) h ?_ hRun
  · rwa [Nat.zero_add] at hEnd
  · rintro i m n - - hm hBody
    have hInsert : Finset.Ico low (first + (i + 1)) =
        insert (first + i) (Finset.Ico low (first + i)) := by
      ext page
      simp only [Finset.mem_Ico, Finset.mem_insert]
      omega
    rw [hInsert]
    exact hm.add (by simp) hBody

theorem table {table : Nat} (hLayout : Layout s) (hTable : 1 ≤ table)
    (h : CountedCopies s a parent (Finset.Ico tableEntries (table * tableEntries)))
    (hRun : (cloneTable parent table).run a = .ok () b) :
    CountedCopies s b parent (Finset.Ico tableEntries ((table + 1) * tableEntries)) := by
  have hFirst : tableEntries ≤ table * tableEntries := Nat.le_mul_of_pos_left _ hTable
  rw [Nat.succ_mul]
  obtain ⟨_, _, hGet, hRun⟩ := bind_returns_iff.mp hRun
  cases hGet
  by_cases hPresent : (a.processes parent).tables table = true
  · rw [if_pos hPresent] at hRun
    obtain ⟨phys, middle, hAllocate, hRun⟩ := bind_returns_iff.mp hRun
    obtain ⟨frame, -, -, -, rfl⟩ := PPallocator.allocate_spec.of_returns hAllocate
    obtain ⟨_, after, hLoop, hRun⟩ := bind_returns_iff.mp hRun
    cases hRun
    exact (h.takeFrame frame).range tableEntries hFirst hLoop
  · rw [if_neg hPresent] at hRun
    cases hRun
    refine h.of_none (Finset.Ico_subset_Ico_right (Nat.le_add_right ..)) fun page hMore hPage => ?_
    rw [Finset.mem_Ico] at hMore hPage
    have hSame : page / tableEntries = table := by
      rw [Nat.div_eq_iff (by decide)]
      constructor <;> omega
    rw [congrArg (fun m => (m.processes parent).tables table) h.eq] at hPresent
    apply hLayout.tables
    unfold hasTable
    rw [hSame]
    simpa [hMore.1] using hPresent

/-- All pages that the child gets are counted. -/
theorem cloned (hLayout : Layout s)
    (hRun : (loop (cloneTable parent) copiedTables).run s = .ok () t) :
    CountedCopies s t parent copiedPages := by
  have hEnd := loop_returns
    (fun table m => CountedCopies s m parent (Finset.Ico tableEntries (table * tableEntries)))
    (by simpa using refl s parent) ?_ hRun
  · exact hEnd
  · rintro table m n hTable - hm hBody
    exact hm.table hLayout hTable hBody

end CountedCopies

end Counts

/-! The copy of the user stack. -/

/-- The first pages of the stack have been copied for the child. The copies are in physical pages
that were free, and no two of them in the same one. -/
structure StackCloned (s t : Memory) (parent child first done : Nat) : Prop where
  layout : Layout t
  spares : Spares (· ≠ child) s t
  references : t.references = s.references
  kernelPages : t.kernelPages = s.kernelPages
  fields : (t.processes child).fields = (s.processes child).fields
  outside : ∀ page, page < first ∨ first + done ≤ page → t.entry child page = s.entry child page
  inside : ∀ i < done, ∃ e, t.entry child (first + i) = some e ∧ e.writable = true ∧
    s.isFree e.frame = true ∧ t.isFree e.frame = false ∧
    ∀ source, s.entry parent (first + i) = some source → s.isFree source.frame = false →
      ¬KernelFrame s source.frame → t.contents e.frame = s.contents source.frame
  distinct : ∀ i j e e', i < done → j < done → t.entry child (first + i) = some e →
    t.entry child (first + j) = some e' → e.frame = e'.frame → i = j

namespace StackCloned

variable {s a b c : Memory} {parent child first done : Nat}

theorem refl (s : Memory) (hLayout : Layout s) (parent child first : Nat) :
    StackCloned s s parent child first 0 where
  layout := hLayout
  spares := .refl _ s
  references := rfl
  kernelPages := rfl
  fields := rfl
  outside _ _ := rfl
  inside _ h := absurd h (Nat.not_lt_zero _)
  distinct _ _ _ _ h := absurd h (Nat.not_lt_zero _)

/-- One more page of the stack is mapped in the child and copied. -/
theorem step (h : StackCloned s a parent child first done) {virtualAddr frame source : Nat}
    (hParent : parent ≠ child) (hPage : virtualAddr / pageSize = first + done)
    (hUser : virtualAddr < kernelAreaStart) (hStack : StackPage a b child (first + done) frame)
    (hSource : frameAt parent virtualAddr b = some source) :
    StackCloned s (copyFrame source frame b) parent child first (done + 1) := by
  have hEntry := hStack.entry
  have hFreeStart := h.spares.isFree_of hStack.fresh
  have hMapped : Spares (· ≠ child) s b := h.spares.trans hStack.spares
  -- no earlier copy is in the physical page that was taken now
  have hOther : ∀ i < done, ∀ e, a.entry child (first + i) = some e → e.frame ≠ frame := by
    rintro i hi e he rfl
    obtain ⟨e', he', -, -, hTaken, -⟩ := h.inside i hi
    rw [he] at he'
    cases he'
    have hFree := hStack.fresh
    rw [hTaken] at hFree
    cases hFree
  have hOld : ∀ i < done, b.entry child (first + i) = a.entry child (first + i) := by
    intro i hi
    rw [hEntry, if_neg (by omega)]
  refine ⟨hStack.layout.of_spaces rfl rfl, hMapped.write (.inl hFreeStart) _,
    hStack.references.trans h.references, hStack.kernelPages.trans h.kernelPages,
    (hStack.rest.fields child).trans h.fields, ?_, ?_, ?_⟩
  · intro page hOutside
    change b.entry child page = _
    rw [hEntry, if_neg (by omega)]
    exact h.outside page (by omega)
  · intro i hi
    change ∃ e, b.entry child (first + i) = some e ∧ e.writable = true ∧ s.isFree e.frame = true ∧
      b.isFree e.frame = false ∧ ∀ source', _ → _ → _ →
        update b.contents frame (b.contents source) e.frame = _
    by_cases hNew : i = done
    · subst hNew
      refine ⟨⟨frame, true⟩, by rw [hEntry, if_pos rfl], rfl, hFreeStart, hStack.used, ?_⟩
      intro source' hEntrySource hUsedSource hKernel
      rw [update_self]
      unfold frameAt at hSource
      rw [if_neg (by omega), hMapped.entry hParent, hPage, hEntrySource] at hSource
      cases hSource
      exact hMapped.contents _ hUsedSource hKernel
    · obtain ⟨e, he, hWritable, hFreeE, hUsedE, hContents⟩ := h.inside i (by omega)
      refine ⟨e, by rw [hOld i (by omega), he], hWritable, hFreeE, hStack.spares.used _ hUsedE, ?_⟩
      intro source' hEntrySource hUsedSource hKernel
      rw [update_of_ne (hOther i (by omega) e he), hStack.rest.contents]
      exact hContents source' hEntrySource hUsedSource hKernel
  · intro i j e e' hi hj he he' hFrame
    change b.entry child (first + i) = some e at he
    change b.entry child (first + j) = some e' at he'
    by_cases hNewI : i = done
    · by_cases hNewJ : j = done
      · rw [hNewI, hNewJ]
      · rw [hEntry, if_pos (by omega)] at he
        cases he
        rw [hOld j (by omega)] at he'
        exact absurd hFrame.symm (hOther j (by omega) e' he')
    · rw [hOld i (by omega)] at he
      by_cases hNewJ : j = done
      · rw [hEntry, if_pos (by omega)] at he'
        cases he'
        exact absurd hFrame (hOther i (by omega) e he)
      · rw [hOld j (by omega)] at he'
        exact h.distinct i j e e' (by omega) (by omega) he he' hFrame

end StackCloned

section CloneUserStack

variable {s t : Memory} {thread : Thread} {child securityLevel : Nat}

/-- A round of the loop in `cloneUserStack`, where both stacks have the same addresses. -/
def cloneStackPage (thread : Thread) (child i : Nat) : Action Unit := do
  let userStackPhys ← mapStackPage child (pageAddress thread.userStackAreaStart i) true
  copyPage thread.process (pageAddress thread.userStackAreaStart i) userStackPhys

theorem run_cloneUserStack (hStack : thread.OnMainStack)
    (hRanges : (s.processes child).virtualRanges = (new securityLevel).virtualRanges) :
    (cloneUserStack child thread).run s =
      (loop (cloneStackPage thread child) (List.range thread.userStackPages) >>= fun _ =>
        pure thread.userStackAreaStart).run
          (s.modifyProcess child (setRanges mainRanges)) := by
  have hRange : (allocateRange child threadUserStackReservedVirtualPages rangeFlagNone).run s =
      .ok userVirtualRangesStart (s.modifyProcess child (setRanges mainRanges)) := by
    change EStateM.Result.ok _ _ = _
    rw [hRanges, allocate_first]
  unfold cloneUserStack
  rw [run_bind, hRange]
  unfold loop cloneStackPage
  simp only [hStack.start_eq, bind_assoc]

abbrev StackClonedTo (s : Memory) (thread : Thread) (child done : Nat) (a : Memory) : Prop :=
  StackCloned (s.modifyProcess child (setRanges mainRanges)) a thread.process child
    (thread.stackPage) done

theorem StackClonedTo.start (hLayout : Layout s) (thread : Thread) (child : Nat) :
    StackClonedTo s thread child 0 (s.modifyProcess child (setRanges mainRanges)) := by
  have hMain : RangesOk mainRanges := rangesOk_new.allocate threadUserStackReservedVirtualPages 0
  exact .refl _ (hLayout.modifyProcess child (setRanges mainRanges) hMain (fun _ => rfl)
    fun _ => rfl) ..

theorem StackClonedTo.round {a : Memory} {i : Nat} (h : StackClonedTo s thread child i a)
    (hStack : thread.OnMainStack) (hParent : thread.process ≠ child) (hi : i < thread.userStackPages) :
    Finishes (fun _ b => StackClonedTo s thread child (i + 1) b)
      (fun reason t => (s.entry thread.process (thread.stackPage + i)).isSome = true →
        Starved reason t)
      ((cloneStackPage thread child i).run a) := by
  obtain ⟨hAddress, hPage, hUser⟩ := hStack.page_eq hi
  have hHigh : tableEntries ≤ pageAddress thread.userStackAreaStart i / pageSize := by
    rw [hPage]
    exact Nat.le_add_right_of_le hStack.high
  refine (mapStackPage_spec h.layout hHigh).bind ?_ ?_
  · rintro _ b ⟨frame, rfl, hMapped⟩
    rw [hPage] at hMapped
    refine copyPage_spec.mono ?_ ?_
    · rintro _ _ ⟨source, hSource, rfl⟩
      rw [Nat.mul_div_cancel _ (by decide : 0 < pageSize)]
      exact h.step hParent hPage hUser hMapped hSource
    · intro _ _ hNone hSome
      have hEntry := (((Spares.modifyProcess s child _).trans h.spares).trans hMapped.spares).entry
        hParent (thread.stackPage + i)
      rw [frameAt, if_neg (by omega), hPage, hEntry, Option.map_eq_none_iff] at hNone
      rw [hNone] at hSome
      cases hSome
  · intro _ _ hStop _
    refine hStop ?_ fun hForbidden => Bool.noConfusion hForbidden
    rw [hAddress, Nat.add_mul_mod_self_right]
    exact hStack.aligned

/-- The copy of a stack that is mapped only stops when there is no memory left. -/
theorem cloneUserStack_spec (hLayout : Layout s) (hStack : thread.OnMainStack)
    (hParent : thread.process ≠ child)
    (hRanges : (s.processes child).virtualRanges = (new securityLevel).virtualRanges) :
    Finishes (fun start t => start = thread.userStackAreaStart ∧
        StackClonedTo s thread child thread.userStackPages t)
      (fun reason t => (∀ i < thread.userStackPages,
          (s.entry thread.process (thread.stackPage + i)).isSome = true) →
        Starved reason t)
      ((cloneUserStack child thread).run s) := by
  rw [run_cloneUserStack hStack hRanges, List.range_eq_range']
  refine (loop_finishes (StackClonedTo s thread child) (.start hLayout thread child)
    fun i a _ hi hCloned => (hCloned.round hStack hParent (by omega)).mono (fun _ _ hNext => hNext)
      fun _ _ hStop hMapped => hStop (hMapped i (by omega))).bind ?_ fun _ _ hStop => hStop
  intro _ t hEnd
  rw [Nat.zero_add] at hEnd
  exact .returns ⟨rfl, hEnd⟩

end CloneUserStack

/-! The whole of a fork. -/

section Fork

variable {s t : Memory} {thread : Thread} {child id : Nat}

def Thread.forked (thread : Thread) (child kernelStackVirt : Nat) : Thread where
  process := child
  isMain := true
  kernelStackPageVirt := kernelStackVirt
  userStackAreaStart := thread.userStackAreaStart
  userStackPages := thread.userStackPages

/-- An action that stops does so because there is no memory left. -/
abbrev StopsOutOfMemory {Value : Type} (action : Action Value) : Prop :=
  StopsWith Starved action

instance : StopsOutOfMemory PPallocator.allocate :=
  ⟨fun _ _ => PPallocator.allocate_spec.mono (fun _ _ _ => trivial) fun _ _ hStop => hStop.2⟩

instance (parent page : Nat) : StopsOutOfMemory (countCopy parent page) := by
  unfold countCopy PPreferenceTracker.increment
  refine Ensures.seq fun m => ?_
  split <;> infer_instance

instance (parent table : Nat) : StopsOutOfMemory (cloneTable parent table) := by
  unfold cloneTable
  infer_instance

/-- The child has a copy of a page of the stack, in a physical page that was free. -/
def StackPageForked (s t : Memory) (thread : Thread) (child i : Nat) : Prop :=
  ∃ e, t.entry child (thread.stackPage + i) = some e ∧ e.writable = true ∧
    s.isFree e.frame = true ∧ t.isFree e.frame = false ∧
    (KernelApart s → ¬KernelFrame t e.frame ∧
      ∀ source, s.entry thread.process (thread.stackPage + i) = some source →
        s.isFree source.frame = false → ¬KernelFrame s source.frame →
        t.contents e.frame = s.contents source.frame)

structure Forked (s t : Memory) (thread : Thread) (child id : Nat) : Prop where
  child_eq : child = s.processCount
  id_eq : id = s.threadCount
  layout : Layout t
  spares : ∃ u, Spares (fun q => q ≠ child ∧ q ≠ thread.process) s u ∧
    ∃ kernelStackVirt, KernelStackAt u kernelStackVirt ∧
      t = { u with threads := update s.threads id (some (thread.forked child kernelStackVirt))
                   threadCount := s.threadCount + 1 }
  processCount : s.processCount < t.processCount
  parent : t.processes thread.process = (s.processes thread.process).protectPages
  fields : (t.processes child).fields = ((s.processes thread.process).copyHeap
    ((new (s.processes thread.process).securityLevel).setRanges mainRanges)).fields
  copied : ∀ page, Copied page →
    t.entry child page = (s.entry thread.process page).map PageEntry.readOnly
  outside : ∀ page, tableEntries ≤ page → ¬Copied page →
    (page < thread.stackPage ∨ thread.stackPage + thread.userStackPages ≤ page) →
    t.entry child page = none
  stack : ∀ i < thread.userStackPages, StackPageForked s t thread child i
  distinct : ∀ i j e e', i < thread.userStackPages → j < thread.userStackPages →
    t.entry child (thread.stackPage + i) = some e →
    t.entry child (thread.stackPage + j) = some e' → e.frame = e'.frame → i = j
  count : ∀ f, t.count f = bump^[copies s thread.process copiedPages f] (s.count f)

theorem Thread.OnMainStack.not_copied (h : thread.OnMainStack) (i : Nat) :
    ¬Copied (thread.stackPage + i) := by
  have hStop := h.stop_eq
  have hPages := h.pages_le
  unfold Copied Thread.stackPage userVirtualRangesStart pageSize at *
  omega

section Parts

variable {c d u : Memory} {kernelStackVirt : Nat}

/-- The memory with the new process, before anything is copied. -/
abbrev childAdded (s : Memory) (thread : Thread) : Memory :=
  insertProcess (new (s.processes thread.process).securityLevel) s

/-- The states after the parts of `forkCurrentPageDirectory`: the pages of the parent are counted,
its stack is copied, and there is a stack for the kernel. -/
structure ForkParts (s : Memory) (thread : Thread) (c d u : Memory) (kernelStackVirt : Nat) :
    Prop where
  counted : CountedCopies (childAdded s thread) c thread.process copiedPages
  user : StackClonedTo (modifyChild thread.process s.processCount cloneTables c) thread
    s.processCount thread.userStackPages d
  spares : Spares (fun _ => True) d u
  references : u.references = d.references
  stackAt : KernelStackAt u kernelStackVirt

/-- What the parts of `forkCurrentPageDirectory` do, one after another. -/
theorem forkCurrentPageDirectory_spec (hLayout : Layout (childAdded s thread))
    (hRanges : KernelRangesOk s.kernelRanges) (hStack : thread.OnMainStack)
    (hParent : thread.process ≠ s.processCount) :
    Finishes (fun result b => ∃ c d u, ForkParts s thread c d u result.1 ∧
        result.2 = thread.userStackAreaStart ∧ b = u.modifyProcess thread.process protectPages)
      (fun reason t => (s.lowPages 0).isSome = true →
        (∀ i < thread.userStackPages,
          (s.entry thread.process (thread.stackPage + i)).isSome = true) →
        KernelStackAt s thread.kernelStackPageVirt → Starved reason t)
      ((forkCurrentPageDirectory s.processCount thread).run (childAdded s thread)) := by
  refine PPallocator.allocate_spec.bind ?_ fun _ _ hStop _ _ _ => hStop.2
  rintro _ _ ⟨frame, -, -, -, rfl⟩
  have hStops : StopsOutOfMemory (loop (cloneTable thread.process) copiedTables) := inferInstance
  refine (Finishes.of_run _).bind (fun _ c hTables => ?_)
    fun _ _ hStop _ _ _ => hStops.stops hStop
  have hTaken : Layout ((childAdded s thread).takeFrame frame) := hLayout.of_spaces rfl rfl
  have hCopies := (CountedCopies.cloned hTaken hTables).of_takeFrame
  have hProcesses : c.processes = (childAdded s thread).processes := congrArg (·.processes) hCopies.eq
  have hSpares : Spares (· ≠ s.processCount) s
      (modifyChild thread.process s.processCount cloneTables c) :=
    ((Spares.insertProcess s _).trans (hCopies.spares _)).trans (.modifyProcess c _ _)
  have hCloned : Layout (modifyChild thread.process s.processCount cloneTables c) :=
    (hCopies.layout hLayout).cloneTables thread.process s.processCount
  have hChildRanges : ((modifyChild thread.process s.processCount cloneTables c).processes
      s.processCount).virtualRanges =
      (new (s.processes thread.process).securityLevel).virtualRanges := by
    simp [modifyChild, cloneTables, hProcesses, insertProcess]
  refine (Finishes.of_run _).bind (fun _ _ hModify => ?_) fun _ _ hStop => by cases hStop
  cases hModify
  refine (cloneUserStack_spec hCloned hStack hParent hChildRanges).bind ?_ ?_
  · rintro _ d ⟨rfl, hStackCloned⟩
    have hLater : Spares (· ≠ s.processCount) s d :=
      (hSpares.trans (.modifyProcess _ _ (setRanges mainRanges))).trans hStackCloned.spares
    refine (cloneKernelStack_spec (hLater.kernelRanges hRanges)).bind ?_ ?_
    · rintro kernelStackVirt u ⟨hKept, hReferences, hStackAt⟩
      exact .returns ⟨c, d, u, ⟨hCopies, hStackCloned, hKept, hReferences, hStackAt⟩, rfl, rfl⟩
    · intro _ _ hStop hLow _ hKernel
      refine hStop ?_ (hKernel.spares hLater)
      rw [hLater.lowPages]
      exact hLow
  · intro _ _ hStop _ hMapped _
    refine hStop fun i hi => ?_
    rw [hSpares.entry hParent]
    exact hMapped i hi

/-- The memory that a fork leaves when its parts have led to `u`. -/
def forkResult (s u : Memory) (thread : Thread) (kernelStackVirt : Nat) : Memory :=
  { modifyChild thread.process s.processCount copyHeap
      (u.modifyProcess thread.process protectPages) with
    threads := update s.threads s.threadCount (some (thread.forked s.processCount kernelStackVirt))
    threadCount := s.threadCount + 1 }

namespace ForkParts

variable (h : ForkParts s thread c d u kernelStackVirt)

include h

/-- Up to the copy of the stack only the child is touched, -/
theorem spares_ranges : Spares (· ≠ s.processCount) s ((modifyChild thread.process s.processCount
    cloneTables c).modifyProcess s.processCount (setRanges mainRanges)) :=
  (((Spares.insertProcess s _).trans (h.counted.spares _)).trans (.modifyProcess c _ _)).trans
    (.modifyProcess _ _ _)

theorem spares_stack : Spares (· ≠ s.processCount) s d := h.spares_ranges.trans h.user.spares

/-- and so it is up to the stack of the kernel. -/
theorem spares_kernelStack : Spares (· ≠ s.processCount) s u :=
  h.spares_stack.trans (h.spares.mono fun _ _ => trivial)

theorem processCount_lt : s.processCount < u.processCount := by
  have hCount : c.processCount = s.processCount + 1 := congrArg (·.processCount) h.counted.eq
  have hUserCount : c.processCount ≤ d.processCount := h.user.spares.processCount
  have hKernelCount := h.spares.processCount
  omega

/-- A copied page of the stack is none of the kernel. -/
theorem not_kernelFrame (hApart : KernelApart s) {f : Nat} (hFree : s.isFree f = true) :
    ¬KernelFrame d f := by
  intro hFrame
  unfold KernelFrame at hFrame
  rw [h.user.kernelPages, h.spares_stack.lowPages] at hFrame
  change (∃ page, c.kernelPages page = _) ∨ _ at hFrame
  rw [congrArg (·.kernelPages) h.counted.eq] at hFrame
  have hInUse := hApart f hFrame
  rw [hFree] at hInUse
  cases hInUse

variable (hParent : thread.process ≠ s.processCount)

include hParent

theorem cloned_child :
    ((modifyChild thread.process s.processCount cloneTables c).modifyProcess s.processCount
      (setRanges mainRanges)).processes s.processCount =
      ((s.processes thread.process).cloneTables
        (new (s.processes thread.process).securityLevel)).setRanges mainRanges := by
  have hProcesses := congrArg (·.processes) h.counted.eq
  simp [modifyChild, hProcesses, insertProcess, hParent]

theorem fields_child : ((forkResult s u thread kernelStackVirt).processes s.processCount).fields =
    ((s.processes thread.process).copyHeap
      ((new (s.processes thread.process).securityLevel).setRanges mainRanges)).fields := by
  have hFields : (u.processes s.processCount).fields =
      (((s.processes thread.process).cloneTables
        (new (s.processes thread.process).securityLevel)).setRanges mainRanges).fields := by
    rw [h.spares.processes _ trivial, h.user.fields, h.cloned_child hParent]
  simp only [forkResult, modifyChild, modifyProcess_processes, if_neg hParent.symm,
    h.spares_kernelStack.processes _ hParent]
  change (s.processes thread.process).copyHeap (u.processes s.processCount).fields = _
  rw [hFields]
  rfl

/-- The pages of the child are those that the copy of the stack left. -/
theorem entry_child {page : Nat} (hPage : tableEntries ≤ page) :
    (forkResult s u thread kernelStackVirt).entry s.processCount page =
      d.entry s.processCount page := by
  rw [entry_high hPage, entry_high hPage, ← h.spares.processes _ trivial]
  simp [forkResult, modifyChild, copyHeap, hParent.symm]

/-- Beside the stack it has the pages that were counted. -/
theorem entry_outside {page : Nat} (hPage : tableEntries ≤ page)
    (hOut : page < thread.stackPage ∨ thread.stackPage + thread.userStackPages ≤ page) :
    (forkResult s u thread kernelStackVirt).entry s.processCount page =
      if Copied page then (s.entry thread.process page).map PageEntry.readOnly else none := by
  rw [h.entry_child hParent hPage, h.user.outside page hOut, entry_high hPage,
    h.cloned_child hParent, entry_high hPage]
  rfl

theorem stackCopied (hStack : thread.OnMainStack) {i : Nat} (hi : i < thread.userStackPages) :
    StackPageForked s (forkResult s u thread kernelStackVirt) thread s.processCount i := by
  obtain ⟨e, he, hWritable, hFree, hUsed, hContents⟩ := h.user.inside i hi
  have hFirst := h.spares_ranges
  refine ⟨e, (h.entry_child hParent (Nat.le_add_right_of_le hStack.high)).trans he, hWritable,
    hFirst.isFree_of hFree, h.spares.used _ hUsed, fun hApart => ?_⟩
  have hNotKernel := h.not_kernelFrame hApart (hFirst.isFree_of hFree)
  refine ⟨h.spares.not_kernelFrame hUsed hNotKernel, fun source hSource hUsedSource hKernel => ?_⟩
  calc (forkResult s u thread kernelStackVirt).contents e.frame = u.contents e.frame := rfl
    _ = d.contents e.frame := h.spares.contents _ hUsed hNotKernel
    _ = _ := hContents source ((hFirst.entry hParent _).trans hSource)
      (hFirst.used _ hUsedSource) (hFirst.not_kernelFrame hUsedSource hKernel)
    _ = s.contents source.frame := hFirst.contents _ hUsedSource hKernel

theorem count_eq (f : Nat) : (forkResult s u thread kernelStackVirt).count f =
    bump^[copies s thread.process copiedPages f] (s.count f) := by
  have hCount : (forkResult s u thread kernelStackVirt).count f = c.count f :=
    count_of_references (h.references.trans h.user.references) f
  rw [hCount, h.counted.count]
  unfold copies
  simp only [(Spares.insertProcess s _).entry hParent]
  rfl

/-- The parts make up a fork. -/
theorem forked (hAfter : Layout (forkResult s u thread kernelStackVirt))
    (hStack : thread.OnMainStack) :
    Forked s (forkResult s u thread kernelStackVirt) thread s.processCount s.threadCount := by
  have hBefore := h.spares_kernelStack
  have hChanged : Spares (fun q => q ≠ s.processCount ∧ q ≠ thread.process) u
      (modifyChild thread.process s.processCount copyHeap
        (u.modifyProcess thread.process protectPages)) :=
    ((Spares.modifyProcess u thread.process _).mono fun _ hq => hq.2).trans
      ((Spares.modifyProcess _ s.processCount _).mono fun _ hq => hq.1)
  refine ⟨rfl, rfl, hAfter, ⟨_, (hBefore.mono fun _ hq => hq.1).trans hChanged, kernelStackVirt,
    h.stackAt.spares hChanged, rfl⟩, h.processCount_lt, ?_, h.fields_child hParent, ?_, ?_,
    fun i hi => h.stackCopied hParent hStack hi, ?_, h.count_eq hParent⟩
  · simp [forkResult, modifyChild, hParent, hBefore.processes _ hParent]
  · intro page hCopied
    have hBelow : page < thread.stackPage := by
      by_contra hAbove
      obtain ⟨i, rfl⟩ := Nat.exists_eq_add_of_le (Nat.not_lt.mp hAbove)
      exact hStack.not_copied i hCopied
    rw [h.entry_outside hParent hCopied.1 (.inl hBelow), if_pos hCopied]
  · intro page hPage hNot hOut
    rw [h.entry_outside hParent hPage hOut, if_neg hNot]
  · intro i j e e' hi hj he he'
    rw [h.entry_child hParent (Nat.le_add_right_of_le hStack.high)] at he he'
    exact h.user.distinct i j e e' hi hj he he'

end ForkParts

end Parts

/-- A fork by a main thread. If the stacks of the thread are mapped, it only stops when there is no
memory left. -/
theorem fork_spec (hLayout : Layout s) (hRanges : KernelRangesOk s.kernelRanges)
    (hStack : thread.OnMainStack) (hProcess : thread.process < s.processCount) :
    Finishes (fun result t => Forked s t thread result.1 result.2)
      (fun reason t => (s.lowPages 0).isSome = true →
        (∀ i < thread.userStackPages,
          (s.entry thread.process (thread.stackPage + i)).isSome = true) →
        KernelStackAt s thread.kernelStackPageVirt → Starved reason t)
      ((fork thread).run s) := by
  have hParent : thread.process ≠ s.processCount := Nat.ne_of_lt hProcess
  refine .of_keeps (inferInstance : Keeps Layout (fork thread)) hLayout ?_
  unfold fork
  refine (Finishes.of_run _).bind (fun _ _ hAdd => ?_) nofun
  cases hAdd
  have hFirst : Layout (childAdded s thread) :=
    hLayout.setProcess _ _ rangesOk_new (fun _ _ _ => rfl) rfl
  refine (forkCurrentPageDirectory_spec hFirst hRanges hStack hParent).bind ?_
    fun _ _ hStop => hStop
  rintro ⟨kernelStackVirt, _⟩ _ ⟨c, d, u, hParts, rfl, rfl⟩
  have hThreads := hParts.spares_kernelStack
  have hResult : ({ modifyChild thread.process s.processCount copyHeap
      (u.modifyProcess thread.process protectPages) with
        threads := update u.threads u.threadCount
          (some (thread.forked s.processCount kernelStackVirt))
        threadCount := u.threadCount + 1 } : Memory) = forkResult s u thread kernelStackVirt := by
    rw [hThreads.threads, hThreads.threadCount, forkResult]
  refine .returns fun hAfter => ?_
  change Forked s _ thread s.processCount u.threadCount
  rw [hThreads.threadCount]
  exact hResult ▸ hParts.forked hParent (hResult ▸ hAfter) hStack

end Fork

end Kernel.Memory
