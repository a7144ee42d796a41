import MeetiX.Kernel.Memory.ForkEffect
import MeetiX.Kernel.Memory.PageFaults

/-! The stacks of main threads in a history of processes that are created, fault on their stacks
and fork. A stack ends where its reserved range ends and is mapped from its start up to there and
nowhere else; a fork copies it to the same addresses. -/
namespace Kernel.Memory

open Base Function

structure StackOf (m : Memory) (thread : Thread) : Prop where
  onMainStack : thread.OnMainStack
  reserved : ∃ range ∈ (m.processes thread.process).virtualRanges, range.used = true ∧
    range.base = userVirtualRangesStart ∧ range.pages = threadUserStackReservedVirtualPages
  mapped : ∀ page, OnStackArea page →
    ((m.entry thread.process page).isSome = true ↔ thread.stackPage ≤ page)
  frames : ∀ page e, OnStackArea page → m.entry thread.process page = some e →
    e.writable = true ∧ m.isFree e.frame = false ∧ ¬KernelFrame m e.frame
  kernelStack : KernelStackAt m thread.kernelStackPageVirt

variable {page id : Nat} {s t : Memory}

theorem OnStackArea.high (h : OnStackArea page) : tableEntries ≤ page := by
  obtain ⟨hLow, -⟩ := h
  unfold userVirtualRangesStart pageSize tableEntries at *
  omega

theorem OnStackArea.not_copied (h : OnStackArea page) : ¬Copied page := by
  obtain ⟨hLow, -⟩ := h
  unfold Copied userVirtualRangesStart pageSize at *
  omega

namespace StackOf

variable {s t : Memory} {thread : Thread} {kept : Nat → Prop}

variable (h : StackOf s thread)

include h

theorem of_same (hSpares : Spares kept s t) (hRanges : (t.processes thread.process).virtualRanges =
      (s.processes thread.process).virtualRanges)
    (hEntry : ∀ page, OnStackArea page → t.entry thread.process page = s.entry thread.process page) :
    StackOf t thread where
  onMainStack := h.onMainStack
  reserved := by
    rw [hRanges]
    exact h.reserved
  mapped page hArea := by
    rw [hEntry page hArea]
    exact h.mapped page hArea
  frames page e hArea he := by
    rw [hEntry page hArea] at he
    obtain ⟨hWritable, hUsed, hKernel⟩ := h.frames page e hArea he
    exact ⟨hWritable, hSpares.used _ hUsed, hSpares.not_kernelFrame hUsed hKernel⟩
  kernelStack := h.kernelStack.spares hSpares

theorem spares (hSpares : Spares kept s t) (hKept : kept thread.process) : StackOf t thread :=
  h.of_same hSpares (by rw [hSpares.processes _ hKept]) fun page _ => hSpares.entry hKept page

theorem withThreads (threads : Nat → Option Thread) (threadCount : Nat) :
    StackOf { s with threads := threads, threadCount := threadCount } thread :=
  ⟨h.onMainStack, h.reserved, h.mapped, h.frames, h.kernelStack⟩

theorem isSome_entry {i : Nat} (hi : i < thread.userStackPages) :
    OnStackArea (thread.stackPage + i) ∧
      (s.entry thread.process (thread.stackPage + i)).isSome = true := by
  have hArea : OnStackArea (thread.stackPage + i) := by
    have hStop := h.onMainStack.stop_eq
    have hPages := h.onMainStack.pages_le
    unfold OnStackArea Thread.stackPage pageSize at *
    omega
  exact ⟨hArea, (h.mapped _ hArea).mpr (Nat.le_add_right ..)⟩

theorem exists_index {page : Nat} (hArea : OnStackArea page) (hStart : thread.stackPage ≤ page) :
    ∃ i < thread.userStackPages, page = thread.stackPage + i := by
  refine ⟨page - thread.stackPage, ?_, by omega⟩
  have hStop := h.onMainStack.stop_eq
  obtain ⟨-, hHigh⟩ := hArea
  unfold Thread.stackPage pageSize at *
  omega

end StackOf

theorem mainRanges_reserved : ∃ range ∈ mainRanges, range.used = true ∧
    range.base = userVirtualRangesStart ∧ range.pages = threadUserStackReservedVirtualPages :=
  ⟨⟨true, userVirtualRangesStart, threadUserStackReservedVirtualPages, rangeFlagNone⟩,
    List.mem_cons_self .., rfl, rfl, rfl⟩

theorem Process.ranges_of_fields {q q' : Process} (h : q'.fields = q.fields) :
    q'.virtualRanges = q.virtualRanges := by
  have hRanges := congrArg Process.virtualRanges h
  exact hRanges

theorem Created.stackOf {securityLevel p kernelStackVirt : Nat}
    (h : Created s t securityLevel p (some id)) (hApart : KernelApart s)
    (hKernel : KernelStackAt t kernelStackVirt) : StackOf t (Thread.main p kernelStackVirt) := by
  obtain ⟨frame, -, hUsed, hNotKernel, hEntry⟩ := h.stack rfl
  have hStart : (Thread.main p kernelStackVirt).stackPage = mainStackPage :=
    Nat.mul_div_cancel _ (by decide)
  refine ⟨Thread.main_onMainStack p kernelStackVirt, ?_, fun page hArea => ?_,
    fun page e hArea he => ?_, hKernel⟩
  · change ∃ range ∈ (t.processes p).virtualRanges, _
    rw [Process.ranges_of_fields (h.fields rfl)]
    exact mainRanges_reserved
  · have hLast : page ≤ mainStackPage := by
      have hHigh := hArea.2
      unfold mainStackPage at *
      omega
    rw [hStart]
    change (t.entry p page).isSome = true ↔ _
    rw [hEntry page hArea.high]
    by_cases hPage : page = mainStackPage
    · simp [hPage]
    · rw [if_neg hPage]
      simp only [Option.isSome_none, Bool.false_eq_true, false_iff]
      omega
  · change t.entry p page = some e at he
    rw [hEntry page hArea.high] at he
    split at he
    · cases he
      exact ⟨rfl, hUsed, hNotKernel hApart⟩
    · cases he

section Fork

variable {s t : Memory} {thread : Thread} {child id : Nat}

theorem Forked.child_stackOf (h : Forked s t thread child id) (hStack : StackOf s thread)
    (hApart : KernelApart s) {kernelStackVirt : Nat} (hKernel : KernelStackAt t kernelStackVirt) :
    StackOf t (thread.forked child kernelStackVirt) := by
  refine ⟨⟨hStack.onMainStack.pages_pos, hStack.onMainStack.pages_le, hStack.onMainStack.stop_eq⟩,
    ?_, fun page hArea => ?_, fun page e hArea he => ?_, hKernel⟩
  · change ∃ range ∈ (t.processes child).virtualRanges, _
    rw [Process.ranges_of_fields h.fields]
    exact mainRanges_reserved
  · change (t.entry child page).isSome = true ↔ thread.stackPage ≤ page
    by_cases hStart : thread.stackPage ≤ page
    · obtain ⟨i, hi, rfl⟩ := hStack.exists_index hArea hStart
      obtain ⟨e, he, -⟩ := h.stack i hi
      simp [he]
    · have hNone := h.outside page hArea.high hArea.not_copied (.inl (by omega))
      simp [hNone, hStart]
  · change t.entry child page = some e at he
    by_cases hStart : thread.stackPage ≤ page
    · obtain ⟨i, hi, rfl⟩ := hStack.exists_index hArea hStart
      obtain ⟨found, hFound, hWritable, -, hUsed, hNotKernel⟩ := h.stack i hi
      rw [he] at hFound
      cases hFound
      exact ⟨hWritable, hUsed, (hNotKernel hApart).1⟩
    · rw [h.outside page hArea.high hArea.not_copied (.inl (by omega))] at he
      cases he

/-- The stacks of all other processes, the parent among them, are left alone. -/
theorem Forked.old_stackOf (h : Forked s t thread child id) {other : Thread}
    (hOther : other.process < s.processCount) (hStack : StackOf s other) : StackOf t other := by
  obtain ⟨u, hSpares, kernelStackVirt, -, rfl⟩ := h.spares
  have hChild : other.process ≠ child := by
    rw [h.child_eq]
    omega
  by_cases hParent : other.process = thread.process
  · have hProcess := h.parent
    rw [← hParent] at hProcess
    refine (hStack.of_same hSpares ?_ fun page hArea => ?_).withThreads _ _
    · rw [hProcess]
      rfl
    · rw [entry_high hArea.high, entry_high hArea.high, hProcess]
      exact if_neg hArea.not_copied
  · exact (hStack.spares hSpares ⟨hChild, hParent⟩).withThreads _ _

end Fork

section Growth

variable {s t : Memory} {thread : Thread} {page : Nat}

theorem StackOf.hasTable (h : StackOf s thread) (hLayout : Layout s) (hArea : OnStackArea page) :
    s.hasTable thread.process page = true := by
  obtain ⟨hFirst, hMapped⟩ := h.isSome_entry h.onMainStack.pages_pos
  have hSame : page / tableEntries = (thread.stackPage + 0) / tableEntries := by
    unfold OnStackArea userVirtualRangesStart threadUserStackReservedVirtualPages pageSize
      tableEntries at *
    omega
  cases hTable : s.hasTable thread.process page with
  | true => rfl
  | false =>
    have hOther : s.hasTable thread.process (thread.stackPage + 0) = false := by
      unfold Memory.hasTable at hTable ⊢
      rw [← hSame]
      simp only [Bool.or_eq_false_iff, decide_eq_false_iff_not] at hTable ⊢
      exact ⟨Nat.not_lt.mpr hFirst.high, hTable.2⟩
    rw [hLayout.tables _ _ hOther] at hMapped
    cases hMapped

/-- The pages that a stack grows by are new ones, and the others stay. -/
theorem Grown.stackOf (h : StackOf s thread) (hApart : KernelApart s) (hArea : OnStackArea page)
    (hBelow : page ≤ thread.stackPage)
    (hGrown : Grown s t thread.process page (thread.stackPage - page)) :
    StackOf t (thread.grownTo page) := by
  have hStart : (thread.grownTo page).stackPage = page :=
    Nat.mul_div_cancel _ (by decide)
  -- a page of the area is below the stack, one of the new pages or one that was mapped before
  have hOld : ∀ other, OnStackArea other → other < page ∨ thread.stackPage ≤ other →
      t.entry thread.process other = s.entry thread.process other := by
    intro other hOther hCase
    apply hGrown.outside
    rcases hCase with hLess | hLe
    · exact .inl hLess
    · exact .inr (.inl (by omega))
  have hNew : ∀ other, OnStackArea other → page ≤ other → other < thread.stackPage →
      ∃ e, t.entry thread.process other = some e ∧ e.writable = true ∧ s.isFree e.frame = true ∧
        t.isFree e.frame = false := by
    intro other hOther hLe hLess
    have hNone : s.entry thread.process other = none := by
      rw [← Option.not_isSome_iff_eq_none, h.mapped other hOther]
      omega
    have hInside := hGrown.inside (other - page) (by omega)
    rw [Nat.add_sub_cancel' hLe] at hInside
    exact hInside hNone
  refine ⟨h.onMainStack.grownTo hArea hBelow, ?_, fun other hOther => ?_, fun other e hOther he => ?_,
    h.kernelStack.spares hGrown.spares⟩
  · change ∃ range ∈ (t.processes thread.process).virtualRanges, _
    rw [Process.ranges_of_fields hGrown.fields]
    exact h.reserved
  · change (t.entry thread.process other).isSome = true ↔ _
    by_cases hCase : other < page ∨ thread.stackPage ≤ other
    · rw [hOld other hOther hCase, h.mapped other hOther]
      omega
    · obtain ⟨e, he, -⟩ := hNew other hOther (by omega) (by omega)
      simp only [he, Option.isSome_some, true_iff]
      omega
  · change t.entry thread.process other = some e at he
    by_cases hCase : other < page ∨ thread.stackPage ≤ other
    · rw [hOld other hOther hCase] at he
      obtain ⟨hWritable, hUsed, hKernel⟩ := h.frames other e hOther he
      exact ⟨hWritable, hGrown.spares.used _ hUsed, hGrown.spares.not_kernelFrame hUsed hKernel⟩
    · obtain ⟨found, hFound, hWritable, hFree, hUsed⟩ := hNew other hOther (by omega) (by omega)
      rw [he] at hFound
      cases hFound
      refine ⟨hWritable, hUsed, fun hKernel => ?_⟩
      unfold KernelFrame at hKernel
      rw [hGrown.kernelPages, hGrown.spares.lowPages] at hKernel
      rw [hApart _ hKernel] at hFree
      cases hFree

/-- A fault on a page of the area that is not mapped. -/
theorem StackOf.fault_spec (h : StackOf s thread) (id : Nat) (hLayout : Layout s) {address : Nat}
    (hArea : OnStackArea (address / pageSize)) :
    Finishes (fun value t => value = .resolved ∧
        ∃ u, Grown s u thread.process (address / pageSize) (thread.stackPage - address / pageSize) ∧
          t = { u with threads :=
            Function.update s.threads id (some (thread.grownTo (address / pageSize))) })
      Starved ((handlePageFault id thread address).run s) := by
  refine handlePageFault_finishes rfl h.onMainStack (fun hTable => ?_) (fun _ => ?_)
    (fun hNot => absurd hArea hNot) fun hNot => absurd hArea hNot
  · rw [h.hasTable hLayout hArea] at hTable
    cases hTable
  · exact (growStack_spec id hLayout h.onMainStack hArea).mono (fun _ _ hGrown => ⟨rfl, hGrown⟩)
      fun _ _ hStop => hStop

end Growth

/-- What can happen to the stacks of main threads. A thread writes to a page that it may write to,
or it accesses a page of its stack area that is not mapped. -/
inductive StackEvent where
  | create (securityLevel : Nat)
  | fault (id address : Nat)
  | write (id address : Nat) (value : UInt8)
  | fork (id : Nat)
deriving DecidableEq, Repr

def Survives {Value : Type} (action : Action Value) (s t : Memory) : Prop :=
  (∃ value, action.run s = .ok value t) ∨ action.run s = .error .fault t

/-- The threads from `first` on are the main threads that the history is about. -/
def IsMainThread (first : Nat) (s : Memory) (id : Nat) (thread : Thread) : Prop :=
  first ≤ id ∧ id < s.threadCount ∧ s.threads id = some thread

def StackStep (first : Nat) (s : Memory) (event : StackEvent) (t : Memory) : Prop :=
  match event with
  | .create securityLevel => Survives (createProcess securityLevel) s t
  | .fault id address => ∃ thread, IsMainThread first s id thread ∧
      OnStackArea (address / pageSize) ∧ s.entry thread.process (address / pageSize) = none ∧
      Survives (handlePageFault id thread address) s t
  | .write id address value => ∃ thread, IsMainThread first s id thread ∧
      writable thread.process address s = true ∧ Survives (storeByte thread.process address value) s t
  | .fork id => ∃ thread, IsMainThread first s id thread ∧ Survives (Memory.fork thread) s t

/-- Every main thread has its stack, in a process of its own. -/
structure MainStacks (first : Nat) (m : Memory) : Prop where
  layout : Layout m
  kernel : KernelSound m
  stack : ∀ id thread, IsMainThread first m id thread →
    thread.process < m.processCount ∧ StackOf m thread
  own : ∀ id id' thread thread', IsMainThread first m id thread → IsMainThread first m id' thread' →
    thread.process = thread'.process → id = id'

namespace MainStacks

variable {first : Nat} {s t : Memory}
variable {id : Nat} {thread : Thread}

section

variable (h : MainStacks first s) (hLayout : Layout t) (hKernel : KernelSound t)
  (hCount : s.processCount ≤ t.processCount)

include h hLayout hKernel hCount

theorem keep
    (hOld : ∀ thread, thread.process < s.processCount → StackOf s thread → StackOf t thread)
    (hThreads : t.threads = s.threads) (hThreadCount : t.threadCount = s.threadCount) :
    MainStacks first t := by
  have hSame : ∀ id thread, IsMainThread first t id thread ↔ IsMainThread first s id thread := by
    intro id thread
    unfold IsMainThread
    rw [hThreads, hThreadCount]
  refine ⟨hLayout, hKernel, fun id thread hThread => ?_, fun id id' thread thread' hThread hThread' =>
    h.own id id' thread thread' ((hSame ..).mp hThread) ((hSame ..).mp hThread')⟩
  obtain ⟨hLess, hStack⟩ := h.stack id thread ((hSame ..).mp hThread)
  exact ⟨by omega, hOld thread hLess hStack⟩

/-- One thread has changed or is new. A new one has a new process. -/
theorem set {new : Thread} (hNew : StackOf t new)
    (hProcess : (∃ thread, IsMainThread first s id thread ∧ new.process = thread.process) ∨
      new.process = s.processCount ∧ s.processCount < t.processCount)
    (hOld : ∀ other, other.process < s.processCount → other.process ≠ new.process →
      StackOf s other → StackOf t other)
    (hThreads : t.threads = update s.threads id (some new))
    (hThreadCount : ∀ i < t.threadCount, i < s.threadCount ∨ i = id) : MainStacks first t := by
  have hCases : ∀ other thread', IsMainThread first t other thread' →
      other ≠ id ∧ IsMainThread first s other thread' ∨ other = id ∧ thread' = new := by
    rintro other thread' ⟨hFirst, hLess, hThread'⟩
    rw [hThreads] at hThread'
    by_cases hSame : other = id
    · subst hSame
      rw [update_self] at hThread'
      exact .inr ⟨rfl, (Option.some.inj hThread').symm⟩
    · rw [update_of_ne hSame] at hThread'
      exact .inl ⟨hSame, hFirst, (hThreadCount other hLess).resolve_right hSame, hThread'⟩
  have hApart : ∀ other thread', other ≠ id → IsMainThread first s other thread' →
      thread'.process ≠ new.process := by
    intro other thread' hNe hThread' hSame
    rcases hProcess with ⟨thread, hThread, hOwn⟩ | ⟨hOwn, -⟩
    · exact hNe (h.own other id thread' thread hThread' hThread (hSame.trans hOwn))
    · exact absurd (h.stack other thread' hThread').1 (by omega)
  have hNewLess : new.process < t.processCount := by
    rcases hProcess with ⟨thread, hThread, hOwn⟩ | ⟨hOwn, hMore⟩
    · have hLess := (h.stack id thread hThread).1
      omega
    · omega
  refine ⟨hLayout, hKernel, fun other thread' hThread' => ?_,
    fun id₁ id₂ thread₁ thread₂ hThread₁ hThread₂ hSame => ?_⟩
  · rcases hCases other thread' hThread' with ⟨hNe, hBefore⟩ | ⟨-, rfl⟩
    · obtain ⟨hLess, hStack⟩ := h.stack other thread' hBefore
      exact ⟨by omega, hOld thread' hLess (hApart other thread' hNe hBefore) hStack⟩
    · exact ⟨hNewLess, hNew⟩
  · rcases hCases id₁ thread₁ hThread₁ with ⟨hNe₁, hBefore₁⟩ | ⟨rfl, rfl⟩
    · rcases hCases id₂ thread₂ hThread₂ with ⟨-, hBefore₂⟩ | ⟨rfl, rfl⟩
      · exact h.own id₁ id₂ thread₁ thread₂ hBefore₁ hBefore₂ hSame
      · exact absurd hSame (hApart id₁ thread₁ hNe₁ hBefore₁)
    · rcases hCases id₂ thread₂ hThread₂ with ⟨hNe₂, hBefore₂⟩ | ⟨rfl, -⟩
      · exact absurd hSame.symm (hApart id₂ thread₂ hNe₂ hBefore₂)
      · rfl

end

theorem fault (h : MainStacks first s) {address : Nat}
    (hThread : IsMainThread first s id thread) (hArea : OnStackArea (address / pageSize))
    (hNone : s.entry thread.process (address / pageSize) = none)
    (hStep : Survives (handlePageFault id thread address) s t) : MainStacks first t := by
  obtain ⟨-, hStack⟩ := h.stack id thread hThread
  have hSpec := hStack.fault_spec id h.layout hArea
  rcases hStep with ⟨value, hRun⟩ | hRun
  · obtain ⟨-, u, hGrown, rfl⟩ := hSpec.of_returns hRun
    have hBelow : address / pageSize ≤ thread.stackPage := by
      have hMapped := (hStack.mapped _ hArea).not
      rw [hNone] at hMapped
      exact Nat.le_of_lt (Nat.lt_of_not_le (hMapped.mp nofun))
    have hSound := h.kernel.spares hGrown.spares
    refine h.set (hGrown.layout.of_spaces rfl rfl) ⟨hSound.ranges, hSound.low, hSound.apart⟩
      hGrown.spares.processCount
      ((hGrown.stackOf hStack h.kernel.apart hArea hBelow).withThreads _ u.threadCount)
      (.inl ⟨thread, hThread, rfl⟩) (fun other _ hOther hBefore => ?_) rfl fun i hi => .inl (hGrown.spares.threadCount ▸ hi)
    exact (hBefore.spares hGrown.spares hOther).withThreads _ u.threadCount
  · exact absurd (hSpec.of_stops hRun).1 (by decide)

/-- The stack of a new main thread is apart from all others. -/
theorem create (h : MainStacks first s) {securityLevel : Nat}
    (hStep : Survives (createProcess securityLevel) s t) : MainStacks first t := by
  rcases hStep with ⟨⟨p, mainThread⟩, hRun⟩ | hRun
  · have hCreated : Created s t securityLevel p mainThread :=
      (createProcess_spec h.layout h.kernel.ranges).of_returns hRun
    obtain ⟨u, hSpares, hNone, hSome⟩ := hCreated.spares
    have hKept : ∀ thread : Thread, thread.process < s.processCount → thread.process ≠ p := by
      intro thread hLess
      rw [hCreated.process_eq]
      exact Nat.ne_of_lt hLess
    cases mainThread with
    | none =>
      obtain rfl := hNone rfl
      exact h.keep hCreated.layout (h.kernel.spares hSpares) hSpares.processCount
        (fun thread hLess hStack => hStack.spares hSpares (hKept thread hLess)) hSpares.threads
        hSpares.threadCount
    | some id =>
      obtain ⟨rfl, kernelStackVirt, hKernel, ht⟩ := hSome id rfl
      have hSound := h.kernel.spares hSpares
      have hKernelT : KernelStackAt t kernelStackVirt := by
        rw [ht]
        exact hKernel
      refine h.set hCreated.layout ?_ (Nat.le_of_lt hCreated.processCount)
        (hCreated.stackOf h.kernel.apart hKernelT)
        (.inr ⟨hCreated.process_eq, hCreated.processCount⟩) (fun thread hLess _ hStack => ?_)
        (by rw [ht]) ?_
      · rw [ht]
        exact ⟨hSound.ranges, hSound.low, hSound.apart⟩
      · rw [ht]
        exact (hStack.spares hSpares (hKept thread hLess)).withThreads _ _
      · rw [ht]
        exact fun i => Nat.lt_succ_iff_lt_or_eq.mp
  · exact absurd ((createProcess_spec h.layout h.kernel.ranges).of_stops hRun).1 (by decide)

theorem write (h : MainStacks first s) {p address : Nat} {value : UInt8}
    (hStep : Survives (storeByte p address value) s t) : MainStacks first t := by
  have hContents : ∃ contents, t = { s with contents := contents } := by
    rcases hStep with ⟨_, hRun⟩ | hRun
    · obtain ⟨frame, -, rfl⟩ := storeByte_spec.of_returns hRun
      exact ⟨_, rfl⟩
    · obtain rfl := storeByte_spec.of_stops hRun
      exact ⟨_, rfl⟩
  obtain ⟨contents, rfl⟩ := hContents
  refine h.keep (h.layout.of_spaces rfl rfl) ⟨h.kernel.ranges, h.kernel.low, h.kernel.apart⟩ (le_refl _)
    (fun thread _ hStack => ?_) rfl rfl
  exact ⟨hStack.onMainStack, hStack.reserved, hStack.mapped, hStack.frames, hStack.kernelStack⟩

theorem fork_spec (h : MainStacks first s) (hThread : IsMainThread first s id thread) :
    Finishes (fun result t => Forked s t thread result.1 result.2) Starved
      ((Memory.fork thread).run s) := by
  obtain ⟨hProcess, hStack⟩ := h.stack id thread hThread
  exact (Memory.fork_spec h.layout h.kernel.ranges hStack.onMainStack hProcess).mono
    (fun _ _ hForked => hForked) fun _ _ hStop =>
      hStop h.kernel.low (fun i hi => (hStack.isSome_entry hi).2) hStack.kernelStack

theorem fork (h : MainStacks first s)
    (hThread : IsMainThread first s id thread) (hStep : Survives (Memory.fork thread) s t) :
    MainStacks first t := by
  have hSpec := h.fork_spec hThread
  obtain ⟨hProcess, hStack⟩ := h.stack id thread hThread
  rcases hStep with ⟨⟨child, newId⟩, hRun⟩ | hRun
  · have hForked : Forked s t thread child newId := hSpec.of_returns hRun
    obtain ⟨u, hSpares, kernelStackVirt, hKernel, ht⟩ := hForked.spares
    have hSound := h.kernel.spares hSpares
    have hKernelT : KernelStackAt t kernelStackVirt := by
      rw [ht]
      exact hKernel
    refine h.set hForked.layout ?_ (Nat.le_of_lt hForked.processCount)
      (hForked.child_stackOf hStack h.kernel.apart hKernelT)
      (.inr ⟨hForked.child_eq, hForked.processCount⟩)
      (fun other hLess _ hOther => hForked.old_stackOf hLess hOther) (by rw [ht]) ?_
    · rw [ht]
      exact ⟨hSound.ranges, hSound.low, hSound.apart⟩
    · rw [ht, hForked.id_eq]
      exact fun i => Nat.lt_succ_iff_lt_or_eq.mp
  · exact absurd (hSpec.of_stops hRun).1 (by decide)

theorem step (h : MainStacks first s) {event : StackEvent} (hStep : StackStep first s event t) :
    MainStacks first t := by
  cases event with
  | create securityLevel => exact h.create hStep
  | fault id address =>
    obtain ⟨thread, hThread, hArea, hNone, hStep⟩ := hStep
    exact h.fault hThread hArea hNone hStep
  | write id address value =>
    obtain ⟨thread, hThread, -, hStep⟩ := hStep
    exact h.write hStep
  | fork id =>
    obtain ⟨thread, hThread, hStep⟩ := hStep
    exact h.fork hThread hStep

theorem initial (hLayout : Layout s) (hKernel : KernelSound s) : MainStacks s.threadCount s where
  layout := hLayout
  kernel := hKernel
  stack _ _ hThread := absurd hThread.2.1 (Nat.not_lt.mpr hThread.1)
  own _ _ _ _ hThread _ _ := absurd hThread.2.1 (Nat.not_lt.mpr hThread.1)

theorem of_run {events : List StackEvent} (hLayout : Layout s) (hKernel : KernelSound s)
    (hRun : Run (StackStep s.threadCount) s events t) : MainStacks s.threadCount t :=
  hRun.invariant (initial hLayout hKernel) fun _ _ _ hInv hStep => hInv.step hStep

end MainStacks

/-- A fork gives the child a stack at the same addresses, of as many pages. Each of them is mapped
to a physical page that was free before, with the bytes of the parent's page. -/
def StackCopied (s t : Memory) (thread : Thread) (child id : Nat) : Prop :=
  ∃ copy, t.threads id = some copy ∧ copy.process = child ∧ child ≠ thread.process ∧
    copy.userStackAreaStart = thread.userStackAreaStart ∧
    copy.userStackPages = thread.userStackPages ∧
    (∀ page, OnStackArea page → ((t.entry child page).isSome = true ↔ copy.stackPage ≤ page)) ∧
    (∀ page e, OnStackArea page → s.entry thread.process page = some e →
      t.entry thread.process page = some e ∧ t.contents e.frame = s.contents e.frame ∧
      ∃ e', t.entry child page = some e' ∧ t.contents e'.frame = s.contents e.frame ∧
        s.isFree e.frame = false ∧ s.isFree e'.frame = true) ∧
    ∀ page page' e e', OnStackArea page → OnStackArea page' → t.entry child page = some e →
      t.entry child page' = some e' → e.frame = e'.frame → page = page'

/-- A fork copies the stack of the thread, byte for byte. -/
theorem Forked.stackCopied {thread : Thread} {child : Nat}
    (h : Forked s t thread child id) (hProcess : thread.process < s.processCount)
    (hStack : StackOf s thread) (hApart : KernelApart s) : StackCopied s t thread child id := by
  obtain ⟨u, hSpares, kernelStackVirt, hKernel, ht⟩ := h.spares
  have hKernelT : KernelStackAt t kernelStackVirt := by
    rw [ht]
    exact hKernel
  have hChild := h.child_stackOf hStack hApart hKernelT
  refine ⟨thread.forked child kernelStackVirt, ?_, rfl, ?_, rfl, rfl, hChild.mapped, ?_, ?_⟩
  · rw [ht]
    exact update_self ..
  · rw [h.child_eq]
    exact Nat.ne_of_gt hProcess
  · intro page e hArea he
    obtain ⟨-, hUsed, hNotKernel⟩ := hStack.frames page e hArea he
    have hStart : thread.stackPage ≤ page := by
      rw [← hStack.mapped page hArea, he]
      rfl
    obtain ⟨i, hi, rfl⟩ := hStack.exists_index hArea hStart
    obtain ⟨e', he', -, hFree, -, hCopy⟩ := h.stack i hi
    refine ⟨?_, ?_, e', he', (hCopy hApart).2 e he hUsed hNotKernel, hUsed, hFree⟩
    · rw [entry_high hArea.high] at he ⊢
      rw [h.parent]
      exact (if_neg hArea.not_copied).trans he
    · rw [ht]
      exact hSpares.contents _ hUsed hNotKernel
  · intro page page' e e' hArea hArea' he he' hSame
    have hStart : ∀ other found, OnStackArea other → t.entry child other = some found →
        ∃ i < thread.userStackPages, other = thread.stackPage + i := by
      intro other found hOther hFound
      apply hStack.exists_index hOther
      have hMapped := hChild.mapped other hOther
      change (t.entry child other).isSome = true ↔ _ at hMapped
      rw [hFound] at hMapped
      exact hMapped.mp rfl
    obtain ⟨i, hi, rfl⟩ := hStart page e hArea he
    obtain ⟨j, hj, rfl⟩ := hStart page' e' hArea' he'
    rw [h.distinct i j e e' hi hj he he' hSame]

/-- Processes are created, fault on their stacks, write and fork, in any order. Then the stack of
each main thread is mapped from its start up to the end of its reserved range, a fault on another
page of the range is resolved by mapping the stack down to that page, and a fork copies the stack
to separate physical pages at the same addresses. -/
theorem main_stack_history {start m : Memory} {events : List StackEvent} (hLayout : Layout start)
    (hKernel : KernelSound start) (hRun : Run (StackStep start.threadCount) start events m)
    {id : Nat} {thread : Thread} (hThread : IsMainThread start.threadCount m id thread) :
    (∃ range ∈ (m.processes thread.process).virtualRanges, range.used = true ∧
      range.base = userVirtualRangesStart ∧ range.pages = threadUserStackReservedVirtualPages ∧
      thread.userStackAreaStart + thread.userStackPages * pageSize =
        range.base + range.pages * pageSize) ∧
    (∀ page, OnStackArea page → ((m.entry thread.process page).isSome = true ↔
      thread.stackPage ≤ page)) ∧
    (∀ address, OnStackArea (address / pageSize) →
      m.entry thread.process (address / pageSize) = none →
      Completes (handlePageFault id thread address) m fun result t =>
        result = .resolved ∧ ∃ grown, t.threads id = some grown ∧
          grown.userStackAreaStart = address / pageSize * pageSize) ∧
    Completes (Memory.fork thread) m fun result t =>
      StackCopied m t thread result.1 result.2 := by
  have hInv := MainStacks.of_run hLayout hKernel hRun
  obtain ⟨hProcess, hStack⟩ := hInv.stack id thread hThread
  refine ⟨?_, hStack.mapped, fun address hArea hNone => ?_, ?_⟩
  · obtain ⟨range, hMem, hUsed, hBase, hPages⟩ := hStack.reserved
    refine ⟨range, hMem, hUsed, hBase, hPages, ?_⟩
    rw [hBase, hPages]
    exact hStack.onMainStack.stop_eq
  · refine .of_finishes ((hStack.fault_spec id hInv.layout hArea).mono ?_ fun _ _ hStop => hStop)
    rintro _ _ ⟨rfl, u, -, rfl⟩
    exact ⟨rfl, thread.grownTo (address / pageSize), update_self .., rfl⟩
  · refine .of_finishes ((hInv.fork_spec hThread).mono (fun _ _ hForked => ?_) fun _ _ hStop => hStop)
    exact hForked.stackCopied hProcess hStack hInv.kernel.apart

/-- A stack grows to eleven pages, and a byte is written to the new part. -/
def stackEvents : List StackEvent := [.create 2, .fault 0 0xA0005123, .write 0 0xA0005123 7]

def grownThread : Thread := ⟨0, true, 0xF0000000, 0xA0005000, 11⟩

theorem run_stackEvents : ∃ m, Run (StackStep smallMachine.threadCount) smallMachine stackEvents m ∧
    IsMainThread smallMachine.threadCount m 0 grownThread := by
  let created := finalState ((createProcess 2).run smallMachine)
  let main : Thread := ⟨0, true, 0xF0000000, 0xA000F000, 1⟩
  let faulted := finalState ((handlePageFault 0 main 0xA0005123).run created)
  let written := finalState ((storeByte 0 0xA0005123 7).run faulted)
  have hCreate : StackStep 0 smallMachine (.create 2) created :=
    .inl ⟨(0, some 0), eq_ok_of_returned (by decide +kernel)⟩
  have hFault : StackStep 0 created (.fault 0 0xA0005123) faulted :=
    ⟨main, ⟨Nat.zero_le _, by decide +kernel, by decide +kernel⟩, ⟨by decide, by decide⟩,
      by decide +kernel, .inl ⟨.resolved, eq_ok_of_returned (by decide +kernel)⟩⟩
  have hWrite : StackStep 0 faulted (.write 0 0xA0005123 7) written :=
    ⟨grownThread, ⟨Nat.zero_le _, by decide +kernel, by decide +kernel⟩, by decide +kernel,
      .inl ⟨(), eq_ok_of_returned (by decide +kernel)⟩⟩
  exact ⟨written, ((Run.single hCreate).append (.single hFault)).append (.single hWrite),
    Nat.zero_le _, by decide +kernel, by decide +kernel⟩

theorem main_stack_history_grown : ∃ m, Run (StackStep 0) smallMachine stackEvents m ∧
    m.threads 0 = some grownThread ∧
    Completes (Memory.fork grownThread) m fun result t =>
      StackCopied m t grownThread result.1 result.2 := by
  obtain ⟨m, hRun, hThread⟩ := run_stackEvents
  have hSound : KernelSound smallMachine := boot_kernelSound _ _ nofun
  obtain ⟨-, -, -, hFork⟩ := main_stack_history (boot_layout ..) hSound hRun hThread
  exact ⟨m, hRun, hThread.2.2, hFork⟩

end Kernel.Memory
