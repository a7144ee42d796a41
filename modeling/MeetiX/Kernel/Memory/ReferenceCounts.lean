import MeetiX.Kernel.Memory.CopyOnWrite
import MeetiX.Kernel.Memory.SharedFramesHistory

/-! What the reference counts mean: how many page table entries of images and heaps there are for
a physical page. They are right as long as no image reaches the virtual ranges, which the loader
does not test. -/
namespace Kernel.Memory

open Base AddressRangePool Finset

/-- The page table entries of images and heaps that map a physical page. -/
def imageEntries (m : Memory) (f : Nat) : Finset (Nat × Nat) :=
  (range m.processCount ×ˢ range frameCount).filter fun x =>
    ((m.processes x.1).IsImagePage x.2 ∨ (m.processes x.1).IsHeapPage x.2) ∧
      (m.entry x.1 x.2).map PageEntry.frame = some f

/-- What the arguments of a call have to meet: an image lies between the lowest 4 MiB and the
virtual ranges, its thread local storage fits into these, and the break stays behind the image. -/
def SharedArguments (s : Memory) : Event → Prop
  | .spawn _ segments tls => ImageFits segments ∧ TlsFits tls
  | .sbrk id amount => ∀ thread, s.threads id = some thread → NotBelow s thread.process amount
  | _ => True

/-- A call with such arguments, after which the counts have not run over. -/
structure SharedStep (s : Memory) (event : Event) (t : Memory) : Prop where
  call : ImageStep s event t
  arguments : SharedArguments s event
  few : ∀ f, (t.imageEntries f).card < 32767

variable {m : Memory}

theorem mem_imageEntries {f p page : Nat} : (p, page) ∈ m.imageEntries f ↔
    (p < m.processCount ∧ page < frameCount) ∧
      ((m.processes p).IsImagePage page ∨ (m.processes p).IsHeapPage page) ∧
      (m.entry p page).map PageEntry.frame = some f := by
  unfold imageEntries
  rw [mem_filter, mem_product, mem_range, mem_range]

/-- The entries of images and heaps are those in the part that a fork copies. -/
theorem imageEntries_eq (hLocated : ∀ q, Located m q) (f : Nat) :
    m.imageEntries f = m.sharedFrames.holders f := by
  ext ⟨p, page⟩
  rw [mem_imageEntries, Sharing.mem_holders]
  change _ ↔ (p, page) ∈ m.slots ∧ (m.entry p page).map PageEntry.frame = some f
  rw [mem_slots]
  constructor
  · rintro ⟨⟨hProcess, -⟩, hPage, hTarget⟩
    exact ⟨⟨hProcess, (hLocated p).inside page hPage⟩, hTarget⟩
  · rintro ⟨⟨hProcess, hCopied⟩, hTarget⟩
    have hSome : (m.entry p page).isSome = true := by
      cases hEntry : m.entry p page with
      | none =>
        rw [hEntry] at hTarget
        cases hTarget
      | some e => rfl
    have hFrame : page < frameCount := by
      have hHigh := hCopied.2
      unfold userVirtualRangesStart pageSize at hHigh
      unfold frameCount
      omega
    exact ⟨⟨hProcess, hFrame⟩, (hLocated p).only page hCopied hSome, hTarget⟩

theorem card_imageEntries (hLocated : ∀ q, Located m q) (f : Nat) :
    (m.imageEntries f).card = m.sharedFrames.sharers f := by
  rw [imageEntries_eq hLocated]
  rfl

section History

variable {s t : Memory} {event : Event}

theorem SharedSound.next (h : SharedSound s) (hStep : SharedStep s event t) : SharedNext s t := by
  have hArguments := hStep.arguments
  have hThreads := h.threads.step hStep.call
  cases hStep.call with
  | spawn hRun =>
    obtain ⟨p, u, hCreate, ⟨rfl, rfl⟩ | ⟨hMain, hLoad⟩⟩ := spawnFromRamdisk_returns hRun
    · exact h.unthreaded hCreate
    · obtain ⟨id, rfl⟩ := Option.isSome_iff_exists.mp hMain
      exact h.loaded hCreate hLoad hArguments.1 hArguments.2 hThreads
  | sbrk hThread hRun => exact h.sbrk hThread (hArguments _ hThread) hRun
  | fork hThread hRun => exact h.fork hThread hRun
  | write hThread hRun => exact h.write hThread hRun

theorem SharedSound.step (h : SharedSound s) (hStep : SharedStep s event t) :
    SharedSound t ∧ s.sharedFrames.Releases t.sharedFrames := by
  have hNext := h.next hStep
  have hFew : FewSharers t := by
    intro f
    rw [← card_imageEntries hNext.located]
    exact hStep.few f
  exact ⟨hNext.sound hFew, (hNext.counts hFew).2⟩

theorem SharedSound.of_run (h : SharedSound s) {events : List Event}
    (hRun : Run SharedStep s events t) : SharedSound t :=
  hRun.invariant h fun _ _ _ hSound hStep => (hSound.step hStep).1

end History

section Boot

variable (isFree : Nat → Bool) (freePageCount : Nat) (contents : Nat → Nat → UInt8)
  (kernelPages : Nat → Option Nat) {kernelRanges : Pool} (hRanges : KernelRangesOk kernelRanges)
include hRanges

theorem boot_sharedSound :
    SharedSound (boot isFree freePageCount contents kernelPages kernelRanges) := by
  have hNone : ∀ q page, Copied page →
      (boot isFree freePageCount contents kernelPages kernelRanges).entry q page = none := by
    intro q page hCopied
    rw [entry_high hCopied.1]
    rfl
  refine ⟨⟨boot_mainThreads _ _ _ _ hRanges, fun q page _ hCopied => hNone q page hCopied, fun q => ?_,
    fun _ _ hThread => nomatch hThread⟩, ⟨fun f hShared => ?_, fun f _ => rfl⟩, fun f => ?_⟩
  · refine .of_image (.inr rfl) (fun page hCopied hEntry => ?_) rfl rfl
    rw [hNone q page hCopied] at hEntry
    cases hEntry
  · exact absurd hShared (Nat.lt_irrefl 0)
  · exact (by decide : 0 < 32767)

/-- In a history of spawns, `sbrk` calls, forks and writes after boot, a physical page that images
and heaps use is counted as often as their page tables map it, and a call returns a page to the
allocator just when the last of these entries goes. -/
theorem reference_count_history {events : List Event} {s : Memory}
    (hRun : Run SharedStep (boot isFree freePageCount contents kernelPages kernelRanges) events s) :
    (∀ f, 0 < (s.imageEntries f).card →
      s.count f = (s.imageEntries f).card ∧ s.isFree f = false) ∧
    ∀ event t, SharedStep s event t → ∀ f, s.isFree f = false →
      (t.isFree f = true ↔ 0 < (s.imageEntries f).card ∧ (t.imageEntries f).card = 0) := by
  have hSound := (boot_sharedSound isFree freePageCount contents kernelPages hRanges).of_run hRun
  refine ⟨fun f hUsed => ?_, fun event t hStep f hUsed => ?_⟩
  · rw [card_imageEntries hSound.located] at hUsed ⊢
    obtain ⟨hCount, hTaken⟩ := hSound.counted.shared f hUsed
    exact ⟨hCount, Bool.eq_false_iff.mpr hTaken⟩
  · obtain ⟨hNext, hReleases⟩ := hSound.step hStep
    rw [card_imageEntries hSound.located, card_imageEntries hNext.located]
    exact hReleases f (Bool.eq_false_iff.mp hUsed)

end Boot

theorem card_imageEntries_pos {f p page : Nat} (hProcess : p < m.processCount)
    (hFrame : page < frameCount) (hPage : (m.processes p).IsImagePage page)
    (hTarget : (m.entry p page).map PageEntry.frame = some f) : 0 < (m.imageEntries f).card :=
  card_pos.mpr ⟨(p, page), mem_imageEntries.mpr ⟨⟨hProcess, hFrame⟩, .inl hPage, hTarget⟩⟩

/-- There are at most as many entries as pages between two bounds. -/
theorem card_imageEntries_le {low high : Nat} (hInside : ∀ p < m.processCount, ∀ page,
      (m.processes p).IsImagePage page ∨ (m.processes p).IsHeapPage page → low ≤ page ∧ page < high)
    (f : Nat) : (m.imageEntries f).card ≤ m.processCount * (high - low) := by
  have hSubset : m.imageEntries f ⊆ range m.processCount ×ˢ Finset.Ico low high := by
    rintro ⟨p, page⟩ hEntry
    obtain ⟨⟨hProcess, -⟩, hPage, -⟩ := mem_imageEntries.mp hEntry
    rw [mem_product, mem_range, mem_Ico]
    exact ⟨hProcess, hInside p hProcess page hPage⟩
  have hCard := card_le_card hSubset
  rwa [card_product, card_range, Nat.card_Ico] at hCard

theorem few_of_bounds (hCount : m.processCount ≤ 2)
    (hBounds : ∀ p < m.processCount, (m.processes p).imageStart = 0x8000000 ∧
      (m.processes p).imageEnd = 0x8001000 ∧ (m.processes p).heapPages = 0) (f : Nat) :
    (m.imageEntries f).card < 32767 := by
  have hInside : ∀ p < m.processCount, ∀ page,
      (m.processes p).IsImagePage page ∨ (m.processes p).IsHeapPage page →
        0x8000 ≤ page ∧ page < 0x8001 := by
    intro p hp page hPage
    obtain ⟨hStart, hEnd, hPages⟩ := hBounds p hp
    unfold Process.IsImagePage Process.IsHeapPage at hPage
    unfold pageSize at hPage
    omega
  have hCard := card_imageEntries_le hInside f
  omega

/-- After a fork the page of the image is counted twice. -/
theorem reference_count_history_forked :
    Run SharedStep smallMachine [.spawn 2 smallImage none, .fork 0] forkedMachine ∧
    0 < (forkedMachine.imageEntries 260).card ∧
    forkedMachine.count 260 = (forkedMachine.imageEntries 260).card := by
  have hSpawn : SharedStep smallMachine (.spawn 2 smallImage none) spawnedMachine :=
    ⟨.spawn spawn_spawnedMachine, (by decide : ImageFits smallImage ∧ TlsFits none), few_of_bounds (by decide +kernel) (by decide +kernel)⟩
  have hFork : SharedStep spawnedMachine (.fork 0) forkedMachine :=
    ⟨.fork threads_spawnedMachine fork_forkedMachine, trivial,
      few_of_bounds (by decide +kernel) (by decide +kernel)⟩
  have hRun := (Run.single hSpawn).snoc hFork
  have hUsed : 0 < (forkedMachine.imageEntries 260).card :=
    card_imageEntries_pos (by decide +kernel : 0 < forkedMachine.processCount)
      (by decide : 0x8000 < frameCount) (by decide +kernel) (by decide +kernel)
  exact ⟨hRun, hUsed, ((reference_count_history _ _ _ _ kernelRangesOk_new hRun).1 260 hUsed).1⟩

/-- A process with an image over the page of its stack. -/
def overlappedMachine : Memory :=
  finalState ((spawnFromRamdisk 2 [⟨0xA000F000, 1, [7]⟩] none).run smallMachine)

theorem spawn_overlappedMachine :
    (spawnFromRamdisk 2 [⟨0xA000F000, 1, [7]⟩] none).run smallMachine =
      .ok (some 0) overlappedMachine :=
  eq_ok_of_returned (by decide +kernel)

/-- The physical page of the stack is then one of the image, and it is not counted. -/
theorem image_over_stack_not_counted :
    ∃ t, ImageStep smallMachine (.spawn 2 [⟨0xA000F000, 1, [7]⟩] none) t ∧
      tableEntries * pageSize ≤ (t.processes 0).imageStart ∧ (t.processes 0).IsImagePage 0xA000F ∧
      t.entry 0 0xA000F = some ⟨258, true⟩ ∧ 0 < (t.imageEntries 258).card ∧ t.count 258 = 0 := by
  have hPage : (overlappedMachine.processes 0).IsImagePage 0xA000F := by decide +kernel
  have hEntry : overlappedMachine.entry 0 0xA000F = some ⟨258, true⟩ := by decide +kernel
  have hTarget : (overlappedMachine.entry 0 0xA000F).map PageEntry.frame = some 258 := by
    rw [hEntry]
    rfl
  exact ⟨overlappedMachine, .spawn spawn_overlappedMachine, by decide +kernel, hPage, hEntry,
    card_imageEntries_pos (by decide +kernel) (by decide) hPage hTarget, by decide +kernel⟩

end Kernel.Memory
