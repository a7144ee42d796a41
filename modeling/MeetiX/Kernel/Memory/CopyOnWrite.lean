import MeetiX.Kernel.Memory.ImageCalls

/-! Writes after a fork. A page that parent and child share is replaced by a copy when one of them
writes to it, but only in the range of the image. A page of the heap behind the first one raises a
signal, and one of the lowest 4 MiB stays shared. -/
namespace Kernel.Memory

open Base Function

/-- Every write of the thread to the page is carried out. Afterwards the page may be written, it
has the content that it had before with the new byte, and the other process sees what it saw. -/
def WriteResolved (t : Memory) (id : Nat) (thread : Thread) (other page : Nat)
    (content : Nat → UInt8) : Prop :=
  ∀ offset value, offset < pageSize →
    Completes (write id thread (page * pageSize + offset) value) t fun result u =>
      result = .resolved ∧ writable thread.process (page * pageSize + offset) u = true ∧
      u.view thread.process page = some (update content offset value) ∧
      u.view other page = some content

/-- Parent and child have the content that the parent had before the fork, and the writes of both
are resolved. -/
def ForkResolved (s t : Memory) (id : Nat) (thread : Thread) (child newId page : Nat) : Prop :=
  ∃ content copy, s.view thread.process page = some content ∧
    t.view thread.process page = some content ∧ t.view child page = some content ∧
    t.threads newId = some copy ∧ copy.process = child ∧
    WriteResolved t id thread child page content ∧
    WriteResolved t newId copy thread.process page content

section Writing

variable {t m : Memory} {id p : Nat} {thread : Thread} {other page frame offset : Nat} {value : UInt8}
variable {e : PageEntry}

theorem page_of_offset (hOffset : offset < pageSize) : (page * pageSize + offset) / pageSize = page := by
  unfold pageSize at *
  omega

theorem offset_of_offset (hOffset : offset < pageSize) :
    (page * pageSize + offset) % pageSize = offset := by
  unfold pageSize at *
  omega

theorem Copied.not_onStackArea (h : Copied page) : ¬OnStackArea page := by
  intro hArea
  obtain ⟨hLow, -⟩ := hArea
  have hHigh := h.2
  unfold userVirtualRangesStart pageSize at *
  omega

theorem Copied.user (h : Copied page) : page * pageSize < kernelAreaStart := by
  have hHigh := h.2
  unfold userVirtualRangesStart kernelAreaStart at *
  omega

section

variable (hUser : page * pageSize + offset < kernelAreaStart) (hOffset : offset < pageSize)
  (hEntry : m.entry p page = some e)

include hUser hOffset hEntry

theorem writable_of_entry : writable p (page * pageSize + offset) m = e.writable := by
  unfold writable
  rw [page_of_offset hOffset, hEntry]
  simp [hUser]

theorem run_storeByte : (storeByte p (page * pageSize + offset) value).run m =
      .ok () (m.writeFrame e.frame offset value) := by
  have hFrame : frameAt p (page * pageSize + offset) m = some e.frame := by
    rw [frameAt_user hUser, page_of_offset hOffset, hEntry]
    rfl
  unfold storeByte
  rw [offset_of_offset hOffset, run_get_bind, hFrame]
  rfl

end

theorem address_user (hUser : page * pageSize < kernelAreaStart) (hOffset : offset < pageSize) :
    page * pageSize + offset < kernelAreaStart := by
  unfold pageSize kernelAreaStart at *
  lia

/-- A write to a page that was copied and may not be written: in the range of the image the page
is replaced by a copy, elsewhere a signal is raised. -/
theorem write_shared_finishes {Ends : FaultResult → Memory → Prop} {Stops : Stop → Memory → Prop}
    (hLayout : Layout t) (hStack : thread.OnMainStack) (hCopied : Copied page)
    (hEntry : t.entry thread.process page = some ⟨frame, false⟩) (hOffset : offset < pageSize)
    (hCopy : (t.processes thread.process).imageStart ≤ page * pageSize →
      page * pageSize ≤ (t.processes thread.process).imageEnd →
      Finishes (fun _ u => ∃ new, u.entry thread.process page = some ⟨new, true⟩ ∧
          Ends .resolved (u.writeFrame new offset value))
        Stops ((copyOnWrite thread.process (page * pageSize) (frame * pageSize)).run t))
    (hSignal : ¬((t.processes thread.process).imageStart ≤ page * pageSize ∧
      page * pageSize ≤ (t.processes thread.process).imageEnd) → Ends .sigsegv t) :
    Finishes Ends Stops ((write id thread (page * pageSize + offset) value).run t) := by
  have hAddress := address_user hCopied.user hOffset
  refine write_finishes (fun hWritable => ?_) fun _ => ?_
  · rw [writable_of_entry hAddress hOffset hEntry] at hWritable
    cases hWritable
  refine handlePageFault_finishes (page_of_offset hOffset) hStack (fun hTable => ?_)
    (fun hArea => absurd hArea hCopied.not_onStackArea) (fun _ hStart hEnd phys hMapped => ?_)
    fun _ hNone => hSignal (hNone hCopied.user (by rw [hEntry]; rfl))
  · rw [hLayout.hasTable_of_entry hEntry] at hTable
    cases hTable
  · obtain ⟨e, hSame, rfl⟩ := hMapped hCopied.user
    cases hEntry.symm.trans hSame
    refine (hCopy hStart hEnd).mono ?_ fun _ _ hStops => hStops
    rintro _ u ⟨new, hOwn, hEnds⟩
    dsimp only
    rw [if_pos (writable_of_entry hAddress hOffset hOwn), run_storeByte hAddress hOffset hOwn]
    exact .returns hEnds

/-- In the range of the image the page is copied. -/
theorem writeResolved_of_image (hLayout : Layout t) (hStack : thread.OnMainStack)
    (hCopied : Copied page) (hStart : (t.processes thread.process).imageStart ≤ page * pageSize)
    (hEnd : page * pageSize ≤ (t.processes thread.process).imageEnd) (hNe : other ≠ thread.process)
    (hEntry : t.entry thread.process page = some ⟨frame, false⟩)
    (hOther : t.entry other page = some ⟨frame, false⟩) (hUsed : t.isFree frame = false) :
    WriteResolved t id thread other page (t.contents frame) := by
  intro offset value hOffset
  refine .of_finishes (write_shared_finishes hLayout hStack hCopied hEntry hOffset (fun _ _ => ?_)
    fun hNot => absurd ⟨hStart, hEnd⟩ hNot)
  refine (copyOnWrite_spec hLayout hCopied.user hEntry hUsed).mono ?_ fun _ _ hStop => hStop
  rintro _ v ⟨new, hNew⟩
  have hFresh : frame ≠ new := by
    rintro rfl
    rw [hNew.fresh] at hUsed
    cases hUsed
  have hOwn : v.entry thread.process page = some ⟨new, true⟩ := by
    rw [hNew.entry, if_pos ⟨rfl, .inr rfl⟩]
  have hShared : v.entry other page = some ⟨frame, false⟩ := by
    have hHigh := hCopied.1
    rw [hNew.entry, if_neg, hOther]
    rintro ⟨-, hLow | hSame⟩
    · omega
    · exact hNe hSame
  refine ⟨new, hOwn, rfl, ?_, ?_, ?_⟩
  · exact writable_of_entry (address_user hCopied.user hOffset) hOffset hOwn
  · change (v.entry thread.process page).map
      (fun e => update v.contents new (update (v.contents new) offset value) e.frame) = _
    rw [hOwn, Option.map_some, update_self, hNew.contents, update_self]
  · change (v.entry other page).map
      (fun e => update v.contents new (update (v.contents new) offset value) e.frame) = _
    rw [hShared, Option.map_some, update_of_ne hFresh, hNew.contents, update_of_ne hFresh]

end Writing

section Fork

variable {s t : Memory} {id : Nat} {thread : Thread} {child newId page : Nat} {e : PageEntry}

/-- What a fork makes of a page that is copied. -/
structure SharedPage (s t : Memory) (thread : Thread) (child page frame : Nat) : Prop where
  parent : t.entry thread.process page = some ⟨frame, false⟩
  child : t.entry child page = some ⟨frame, false⟩
  used : t.isFree frame = false
  contents : t.contents frame = s.contents frame

theorem Forked.sharedPage (h : Forked s t thread child newId) (hCopied : Copied page)
    (hEntry : s.entry thread.process page = some e) (hUsed : s.isFree e.frame = false)
    (hKernel : ¬KernelFrame s e.frame) : SharedPage s t thread child page e.frame := by
  obtain ⟨u, hSpares, kernelStackVirt, -, ht⟩ := h.spares
  refine ⟨?_, ?_, ?_, ?_⟩
  · rw [entry_high hCopied.1] at hEntry ⊢
    rw [h.parent]
    refine (if_pos hCopied).trans ?_
    rw [hEntry]
    rfl
  · rw [h.copied page hCopied, hEntry]
    rfl
  · rw [ht]
    exact hSpares.used _ hUsed
  · rw [ht]
    exact hSpares.contents _ hUsed hKernel

theorem Process.image_of_fields {q q' : Process} (h : q'.fields = q.fields) :
    q'.imageStart = q.imageStart ∧ q'.imageEnd = q.imageEnd := by
  have hStart := congrArg Process.imageStart h
  have hEnd := congrArg Process.imageEnd h
  exact ⟨hStart, hEnd⟩

theorem Forked.image_eq (h : Forked s t thread child newId) {p : Nat}
    (hp : p = thread.process ∨ p = child) :
    (t.processes p).imageStart = (s.processes thread.process).imageStart ∧
      (t.processes p).imageEnd = (s.processes thread.process).imageEnd := by
  rcases hp with rfl | rfl
  · rw [h.parent]
    exact ⟨rfl, rfl⟩
  · obtain ⟨hStart, hEnd⟩ := Process.image_of_fields h.fields
    exact ⟨hStart, hEnd⟩

theorem Forked.exists_thread (h : Forked s t thread child newId) (hStack : thread.OnMainStack) :
    ∃ copy, t.threads newId = some copy ∧ copy.process = child ∧ copy.OnMainStack := by
  obtain ⟨u, -, kernelStackVirt, -, ht⟩ := h.spares
  refine ⟨thread.forked child kernelStackVirt, ?_, rfl, hStack.pages_pos, hStack.pages_le,
    hStack.stop_eq⟩
  rw [ht]
  exact update_self ..

theorem Forked.resolved (h : Forked s t thread child newId) (hStack : thread.OnMainStack)
    (hProcess : thread.process < s.processCount) (hCopied : Copied page)
    (hStart : (s.processes thread.process).imageStart ≤ page * pageSize)
    (hEnd : page * pageSize ≤ (s.processes thread.process).imageEnd)
    (hEntry : s.entry thread.process page = some e) (hUsed : s.isFree e.frame = false)
    (hKernel : ¬KernelFrame s e.frame) : ForkResolved s t id thread child newId page := by
  obtain ⟨hParent, hChild, hTaken, hContents⟩ := h.sharedPage hCopied hEntry hUsed hKernel
  obtain ⟨copy, hCopy, hOwn, hStackCopy⟩ := h.exists_thread hStack
  obtain ⟨hStartParent, hEndParent⟩ := h.image_eq (.inl rfl)
  obtain ⟨hStartChild, hEndChild⟩ := h.image_eq (.inr rfl)
  have hNe : child ≠ thread.process := by
    rw [h.child_eq]
    exact Nat.ne_of_gt hProcess
  have hView : ∀ p, t.entry p page = some ⟨e.frame, false⟩ → t.view p page = some (s.contents e.frame) := by
    intro p hFound
    unfold view
    rw [hFound, Option.map_some, hContents]
  refine ⟨s.contents e.frame, copy, ?_, hView _ hParent, hView _ hChild, hCopy, hOwn, ?_, ?_⟩
  · unfold view
    rw [hEntry]
    rfl
  · rw [← hContents]
    exact writeResolved_of_image h.layout hStack hCopied (hStartParent ▸ hStart)
      (hEndParent ▸ hEnd) hNe hParent hChild hTaken
  · rw [← hContents]
    subst hOwn
    exact writeResolved_of_image h.layout hStackCopy hCopied (hStartChild ▸ hStart)
      (hEndChild ▸ hEnd) hNe.symm hChild hParent hTaken

/-- A write of the parent shows that a page is not resolved. -/
theorem not_forkResolved_of_write (value : UInt8)
    (hWrite : Finishes (fun result u => ¬(result = .resolved ∧ u.view child page = t.view child page))
      (fun _ _ => False) ((write id thread (page * pageSize + 0) value).run t)) :
    ¬ForkResolved s t id thread child newId page := by
  rintro ⟨content, copy, -, -, hChild, -, -, hResolved, -⟩
  obtain ⟨result, u, hRun, hNot⟩ := hWrite.exists_returns
  have hOutcome := hResolved 0 value (by decide)
  unfold Completes at hOutcome
  rw [hRun] at hOutcome
  exact hNot ⟨hOutcome.1, hOutcome.2.2.2.trans hChild.symm⟩

variable (h : Forked s t thread child newId)

include h

theorem Forked.not_resolved_low (hLow : page < tableEntries)
    (hEntry : s.entry thread.process page = some e) (hWritable : e.writable = true) :
    ¬ForkResolved s t id thread child newId page := by
  have hSame : ∀ p, t.entry p page = some e := by
    obtain ⟨u, hSpares, kernelStackVirt, -, ht⟩ := h.spares
    intro p
    have hTable : t.lowPages = s.lowPages := by
      rw [ht]
      exact hSpares.lowPages
    unfold entry at hEntry ⊢
    rw [if_pos hLow] at hEntry ⊢
    rw [hTable, hEntry]
  have hUser : page * pageSize < kernelAreaStart := by
    unfold tableEntries pageSize kernelAreaStart at *
    lia
  have hAddress := address_user hUser (by decide : 0 < pageSize)
  have hAllowed := writable_of_entry hAddress (by decide) (hSame thread.process)
  refine not_forkResolved_of_write (t.contents e.frame 0 + 1) (write_finishes (fun _ => ?_)
    fun hDenied => ?_)
  · rw [run_storeByte hAddress (by decide) (hSame thread.process)]
    refine .returns fun hResolved => ?_
    have hView := hResolved.2
    -- the child sees the byte of the parent
    unfold view at hView
    change (t.entry child page).map (fun found => update t.contents e.frame
      (update (t.contents e.frame) 0 (t.contents e.frame 0 + 1)) found.frame) = _ at hView
    rw [hSame child, Option.map_some] at hView
    have hByte := congrFun (Option.some.inj hView) 0
    simp at hByte
  · rw [hAllowed, hWritable] at hDenied
    cases hDenied

/-- A page of the virtual ranges that is not on the stack of the parent is missing in the child. -/
theorem Forked.not_resolved_high (hHigh : tableEntries ≤ page) (hNot : ¬Copied page)
    (hStack : page < thread.stackPage ∨ thread.stackPage + thread.userStackPages ≤ page) :
    ¬ForkResolved s t id thread child newId page := by
  rintro ⟨content, copy, -, -, hChild, -⟩
  unfold view at hChild
  rw [h.outside page hHigh hNot hStack] at hChild
  cases hChild

theorem Forked.not_resolved_outside (hStack : thread.OnMainStack) (hCopied : Copied page)
    (hImage : ¬((s.processes thread.process).imageStart ≤ page * pageSize ∧
      page * pageSize ≤ (s.processes thread.process).imageEnd))
    (hEntry : s.entry thread.process page = some e) (hUsed : s.isFree e.frame = false)
    (hKernel : ¬KernelFrame s e.frame) : ¬ForkResolved s t id thread child newId page := by
  obtain ⟨hStart, hEnd⟩ := h.image_eq (.inl rfl)
  have hParent := (h.sharedPage hCopied hEntry hUsed hKernel).parent
  rw [← hStart, ← hEnd] at hImage
  exact not_forkResolved_of_write 0 (write_shared_finishes h.layout hStack hCopied hParent (by decide)
    (fun hLow hHigh => absurd ⟨hLow, hHigh⟩ hImage) fun _ hResolved => nomatch hResolved.1)

end Fork

/-- After any history of spawned processes, heaps, forks and writes a process forks. A page of it
that could be written, whose physical page is in use for users and not on the stack, is resolved
for the writes of parent and child just when a fork copies it and it lies in the range of the
image or right behind it. -/
theorem fork_write_resolved_iff {start s t : Memory} {events : List Event} (hStart : MainThreads start)
    (hRun : Run ImageStep start events s) {id child newId page : Nat} {thread : Thread}
    {e : PageEntry} (hThread : s.threads id = some thread)
    (hFork : (Memory.fork thread).run s = .ok (child, newId) t)
    (hEntry : s.entry thread.process page = some e) (hWritable : e.writable = true)
    (hUsed : s.isFree e.frame = false) (hKernel : ¬KernelFrame s e.frame)
    (hStack : page < thread.stackPage ∨ thread.stackPage + thread.userStackPages ≤ page) :
    ForkResolved s t id thread child newId page ↔
      Copied page ∧ (s.processes thread.process).imageStart ≤ page * pageSize ∧
        page * pageSize ≤ (s.processes thread.process).imageEnd := by
  have hMain := MainThreads.of_run hStart hRun
  obtain ⟨hOnStack, hProcess⟩ := hMain.main id thread hThread
  have hForked := (hMain.fork hThread hFork).1
  constructor
  · intro hResolved
    have hCopied : Copied page := by
      by_contra hNot
      by_cases hLow : page < tableEntries
      · exact hForked.not_resolved_low hLow hEntry hWritable hResolved
      · exact hForked.not_resolved_high (by omega) hNot hStack hResolved
    refine ⟨hCopied, ?_⟩
    by_contra hImage
    exact hForked.not_resolved_outside hOnStack hCopied hImage hEntry hUsed hKernel hResolved
  · rintro ⟨hCopied, hLow, hHigh⟩
    exact hForked.resolved hOnStack hProcess hCopied hLow hHigh hEntry hUsed hKernel

variable {s t : Memory} {p : Nat}

/-- A physical page that was free when the image is loaded does not become the kernel's. -/
theorem loadImage_not_kernelFrame {f : Nat} {segments : List Segment}
    {tls : Option Segment} (hApart : KernelApart s) (hFree : s.isFree f = true)
    (hLow : ∀ e, t.lowPages 0 = some e → e.frame ≠ f)
    (hLoad : (loadImage p segments tls).run s = .ok () t) : ¬KernelFrame t f := by
  have hSame : Undisturbed s t := Keeps.of_returns rfl hLoad
  rintro (⟨page, hPage⟩ | ⟨e, he, hFrame⟩)
  · rw [hSame.fields.2.2.2] at hPage
    rw [hApart f (.inl ⟨page, hPage⟩)] at hFree
    cases hFree
  · exact hLow e he hFrame

theorem createProcess_kernelApart {securityLevel : Nat} {main : Option Nat}
    (hSound : KernelSound s) (hLayout : Layout s)
    (hCreate : (createProcess securityLevel).run s = .ok (p, main) t) : KernelApart t := by
  obtain ⟨u, hSpares, hNone, hSome⟩ := ((createProcess_spec hLayout hSound.ranges).of_returns hCreate).spares
  cases main with
  | none =>
    rw [hNone rfl]
    exact hSpares.kernelApart hSound.apart
  | some id =>
    obtain ⟨-, kernelStackVirt, -, hEq⟩ := hSome id rfl
    rw [hEq]
    exact hSpares.kernelApart hSound.apart

theorem smallMachine_mainThreads : MainThreads smallMachine :=
  boot_mainThreads _ _ _ _ kernelRangesOk_new

def spawnedMachine : Memory :=
  finalState ((spawnFromRamdisk 2 smallImage none).run smallMachine)

theorem spawn_spawnedMachine :
    (spawnFromRamdisk 2 smallImage none).run smallMachine = .ok (some 0) spawnedMachine :=
  eq_ok_of_returned (by decide +kernel)

/-- Its main thread. -/
abbrev firstThread : Thread := ⟨0, true, 0xF0000000, 0xA000F000, 1⟩

theorem threads_spawnedMachine : spawnedMachine.threads 0 = some firstThread := by decide +kernel

def forkedMachine : Memory := finalState ((Memory.fork firstThread).run spawnedMachine)

theorem fork_forkedMachine : (Memory.fork firstThread).run spawnedMachine = .ok (1, 1) forkedMachine :=
  eq_ok_of_returned (by decide +kernel)

theorem spawnedMachine_not_kernelFrame : ¬KernelFrame spawnedMachine 260 := by
  obtain ⟨p, u, hCreate, ⟨hNone, -⟩ | ⟨-, hLoad⟩⟩ := spawnFromRamdisk_returns spawn_spawnedMachine
  · cases hNone
  · have hCreated : u = finalState ((createProcess 2).run smallMachine) := by
      rw [hCreate]
      rfl
    have hLow : spawnedMachine.lowPages 0 = some ⟨0, true⟩ := by decide +kernel
    have hSound : KernelSound smallMachine := boot_kernelSound _ _ nofun
    refine loadImage_not_kernelFrame
      (createProcess_kernelApart hSound (boot_layout ..) hCreate) ?_ ?_ hLoad
    · rw [hCreated]
      decide +kernel
    · intro e he
      rw [hLow] at he
      cases he
      decide

/-- The image of one page after a fork. -/
theorem fork_write_resolved_image : ∃ t, Run ImageStep smallMachine [.spawn 2 smallImage none]
      spawnedMachine ∧
    (Memory.fork firstThread).run spawnedMachine = .ok (1, 1) t ∧
    ForkResolved spawnedMachine t 0 firstThread 1 1 0x8000 := by
  have hRun : Run ImageStep smallMachine [.spawn 2 smallImage none] spawnedMachine :=
    .single (.spawn spawn_spawnedMachine)
  have hEntry : spawnedMachine.entry 0 0x8000 = some ⟨260, true⟩ := by decide +kernel
  refine ⟨_, hRun, fork_forkedMachine, ?_⟩
  refine (fork_write_resolved_iff smallMachine_mainThreads hRun threads_spawnedMachine
    fork_forkedMachine hEntry rfl (by decide +kernel) spawnedMachine_not_kernelFrame (.inl (by decide))).mpr ?_
  decide +kernel

/-- A process with a heap of three pages forks and writes to the second of them. -/
theorem heap_write_raises_signal :
    ∃ s t u, Run ImageStep smallMachine [.spawn 2 smallImage none, .sbrk 0 0x3000] s ∧
      s.threads 0 = some firstThread ∧
      (s.processes 0).IsHeapPage 0x8002 ∧ s.entry 0 0x8002 = some ⟨263, true⟩ ∧
      s.isFree 263 = false ∧
      (Memory.fork firstThread).run s = .ok (1, 1) t ∧
      (write 0 firstThread 0x8002000 1).run t = .ok .sigsegv u ∧
      ¬ForkResolved s t 0 firstThread 1 1 0x8002 := by
  have hSbrk := eq_ok_of_returned (by decide +kernel :
    returned ((sbrk 0 0x3000).run spawnedMachine) = some ⟨0x8001000, true⟩)
  have hFork := eq_ok_of_returned (by decide +kernel : returned
    ((Memory.fork firstThread).run
      (finalState ((sbrk 0 0x3000).run spawnedMachine))) = some (1, 1))
  have hWrite := eq_ok_of_returned (by decide +kernel : returned
    ((write 0 firstThread (0x8002 * pageSize + 0) 1).run
      (finalState ((Memory.fork firstThread).run
        (finalState ((sbrk 0 0x3000).run spawnedMachine))))) = some .sigsegv)
  have hRun := (Run.single (ImageStep.spawn spawn_spawnedMachine)).snoc (.sbrk threads_spawnedMachine hSbrk)
  refine ⟨_, _, _, hRun, ?_, ?_, ?_, ?_, hFork, hWrite, not_forkResolved_of_write 1 ?_⟩
  · decide +kernel
  · decide +kernel
  · decide +kernel
  · decide +kernel
  · rw [hWrite]
    exact .returns fun hResolved => nomatch hResolved.1

end Kernel.Memory
