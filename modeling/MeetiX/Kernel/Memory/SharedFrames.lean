import MeetiX.Base.Sharing
import MeetiX.Kernel.Memory.ImageCalls

/-! The reference counts of physical pages. Between the lowest 4 MiB and the virtual ranges there
are only pages of images and heaps, all of them counted: the places of the sharing are the page
table entries there. -/
namespace Kernel.Memory

open Base Function Process

variable (m : Memory)

/-- The page table entries that a fork copies, of all processes. -/
def slots : Finset (Nat × Nat) :=
  Finset.range m.processCount ×ˢ copiedPages

/-- The sharing of physical pages by these entries. -/
def sharedFrames : Sharing (Nat × Nat) Nat where
  places := m.slots
  target x := (m.entry x.1 x.2).map PageEntry.frame
  count := m.count
  free f := m.isFree f = true

variable {s t : Memory} {page p : Nat}

theorem copied_iff : page ∈ copiedPages ↔ Copied page := by
  rw [Finset.mem_Ico]
  unfold Copied userVirtualRangesStart pageSize
  lia

theorem mem_slots {m : Memory} : (p, page) ∈ m.slots ↔ p < m.processCount ∧ Copied page := by
  unfold slots
  rw [Finset.mem_product, Finset.mem_range, copied_iff]

/-- Which entries a change of one page can touch in the part that a fork copies. -/
theorem not_shared_page {q g : Nat} (hCopied : Copied g) (hNe : q ≠ p ∨ g ≠ page) :
    ¬(g = page ∧ (page < tableEntries ∨ q = p)) := by
  rintro ⟨rfl, hLow | rfl⟩
  · exact absurd hCopied.1 (by omega)
  · simp at hNe

theorem slots_of_count (h : t.processCount = s.processCount) : t.slots = s.slots := by
  unfold slots
  rw [h]

section Steps

variable {s t : Memory} {p page frame : Nat} {e : PageEntry}

/-- The sharers when the entry of one page is set. -/
theorem sharers_of_set {e : Option PageEntry} (hCount : t.processCount = s.processCount)
    (hPlace : (p, page) ∈ s.slots) (hEntry : ∀ q g, t.entry q g =
      if g = page ∧ (page < tableEntries ∨ q = p) then e else s.entry q g) (f : Nat) :
    t.sharedFrames.sharers f + Sharing.one (s.sharedFrames.target (p, page)) f =
      s.sharedFrames.sharers f + Sharing.one (e.map PageEntry.frame) f := by
  refine Sharing.sharers_of_target (slots_of_count hCount) hPlace ?_ f
  rintro ⟨q, g⟩ hPlace
  change (t.entry q g).map PageEntry.frame = _
  rw [hEntry]
  by_cases hSame : (q, g) = (p, page)
  · cases hSame
    rw [if_pos ⟨rfl, .inr rfl⟩, if_pos rfl]
  · rw [if_neg hSame, if_neg (not_shared_page (mem_slots.mp hPlace).2 (by grind))]
    rfl

theorem counted_of_entry (hCounted : s.sharedFrames.Counted)
    (hPlace : (p, page) ∈ s.slots) (hEntry : s.entry p page = some e)
    (hFew : s.sharedFrames.sharers e.frame < 32767) :
    s.sharedFrames.target (p, page) = some e.frame ∧ s.count e.frame ≠ 0 ∧
      Int.bmod (s.count e.frame - 1) 65536 = s.count e.frame - 1 ∧ ¬s.isFree e.frame = true := by
  have hTarget : s.sharedFrames.target (p, page) = some e.frame := by
    change (s.entry p page).map PageEntry.frame = _
    rw [hEntry]
    rfl
  have hShared := Sharing.sharers_pos_of_mem hPlace hTarget
  obtain ⟨hEq, hUsed⟩ := hCounted.shared e.frame hShared
  change s.count e.frame = _ at hEq
  exact ⟨hTarget, by omega, bmod_of_small (by omega) (by omega), hUsed⟩

/-- A page that is mapped, if there is none at its place. -/
theorem NewPage.moves (h : NewPage s t p page frame true) (hCounted : s.sharedFrames.Counted)
    (hCount : t.processCount = s.processCount) :
    ∃ new, s.sharedFrames.Moves t.sharedFrames none new := by
  have hOther : ∀ f, f ≠ frame → t.count f = s.count f := fun f hf => by
    rw [h.count, if_neg fun hBoth => hf hBoth.2]
  by_cases hNew : (p, page) ∈ s.slots ∧ s.entry p page = none
  · obtain ⟨hPlace, hNone⟩ := hNew
    have hEntry := h.entry
    simp only [hNone, and_true] at hEntry
    have hTarget : s.sharedFrames.target (p, page) = none := Option.map_eq_none_iff.mpr hNone
    have hSharers := sharers_of_set hCount hPlace hEntry
    rw [hTarget] at hSharers
    have hZero : s.count frame = 0 := hCounted.unused frame h.fresh
    refine ⟨some frame, hSharers, ?_, ?_, nofun, fun f _ _ hf => hOther f fun hSame => hf (hSame ▸ rfl),
      nofun, fun f hFree _ => ?_⟩
    · rintro _ ⟨⟩
      exact h.fresh
    · rintro _ ⟨⟩
      change t.count frame = 1
      rw [h.count, if_pos ⟨rfl, rfl⟩, hZero]
      rfl
    · obtain ⟨hBefore, hNe⟩ := h.taken f hFree
      exact ⟨hBefore, fun hSome => hNe (Option.some.inj hSome).symm⟩
  · have hSharers : ∀ f, t.sharedFrames.sharers f = s.sharedFrames.sharers f := by
      refine Sharing.sharers_congr fun ⟨q, g⟩ f => ?_
      change _ ↔ (q, g) ∈ t.slots ∧ (t.entry q g).map PageEntry.frame = _
      rw [slots_of_count hCount]
      refine and_congr_right fun hPlace => ?_
      rw [h.entry, if_neg]
      · rfl
      rintro ⟨rfl, hLow | rfl, hNone⟩
      · exact absurd (mem_slots.mp hPlace).2.1 (by omega)
      · exact hNew ⟨hPlace, hNone⟩
    refine ⟨none, fun f => by rw [hSharers], nofun, nofun, nofun, fun f hUsed _ _ => hOther f ?_,
      nofun, fun f hFree _ => ⟨(h.taken f hFree).1, nofun⟩⟩
    rintro rfl
    rw [hSharers, hCounted.sharers_of_free h.fresh] at hUsed
    exact (h.taken f (hUsed.resolve_left (lt_irrefl 0))).2 rfl

/-- A page of a heap that is given up. -/
theorem ReleasedPage.moves (h : ReleasedPage s t p page e.frame)
    (hCounted : s.sharedFrames.Counted) (hCount : t.processCount = s.processCount)
    (hPlace : (p, page) ∈ s.slots) (hEntry : s.entry p page = some e)
    (hFew : s.sharedFrames.sharers e.frame < 32767) :
    s.sharedFrames.Moves t.sharedFrames (some e.frame) none := by
  obtain ⟨hTarget, hNonzero, hSmall, hUsed⟩ := counted_of_entry hCounted hPlace hEntry hFew
  obtain ⟨hOwn, hFree⟩ := h.count hNonzero
  have hSharers := sharers_of_set hCount hPlace h.entry
  rw [hTarget] at hSharers
  refine ⟨hSharers, nofun, nofun, ?_, fun f _ hf _ => h.count_of_ne f fun hSame => hf (hSame ▸ rfl), ?_,
    fun f hNow hf => ⟨(h.free_of f hNow).resolve_right fun hSame => hf (hSame ▸ rfl), nofun⟩⟩
  · rintro _ ⟨⟩
    exact hOwn.trans hSmall
  · rintro _ ⟨⟩
    exact hFree.trans (or_iff_right hUsed)

/-- A page of an image that is replaced by its copy. -/
theorem CopiedOnWrite.moves {new : Nat} (h : CopiedOnWrite s t p page e.frame new)
    (hCounted : s.sharedFrames.Counted) (hPlace : (p, page) ∈ s.slots)
    (hEntry : s.entry p page = some e) (hFew : s.sharedFrames.sharers e.frame < 32767) :
    s.sharedFrames.Moves t.sharedFrames (some e.frame) (some new) := by
  obtain ⟨hTarget, hNonzero, hSmall, -⟩ := counted_of_entry hCounted hPlace hEntry hFew
  obtain ⟨hOwn, hFree⟩ := h.count_old hNonzero
  have hZero : s.count new = 0 := hCounted.unused new h.fresh
  have hSharers := sharers_of_set h.processCount hPlace h.entry
  rw [hTarget] at hSharers
  refine ⟨hSharers, ?_, ?_, ?_, fun f _ hf hNew => h.count_of_ne f (fun hSame => hNew (hSame ▸ rfl))
    fun hSame => hf (hSame ▸ rfl), ?_, fun f hNow hf => ?_⟩
  · rintro _ ⟨⟩
    exact h.fresh
  · rintro _ ⟨⟩
    change t.count new = 1
    rw [h.count_new, hZero]
    rfl
  · rintro _ ⟨⟩
    exact hOwn.trans hSmall
  · rintro _ ⟨⟩
    exact hFree
  · obtain ⟨hBefore, hNe⟩ := (h.free_of f hNow).resolve_right fun hSame => hf (hSame ▸ rfl)
    exact ⟨hBefore, fun hSome => hNe (Option.some.inj hSome).symm⟩

end Steps

theorem sharedFrames_modifyFields (p : Nat) {change : Process → Process}
    (hPages : ∀ q, (change q).pages = q.pages) :
    (m.modifyProcess p change).sharedFrames = m.sharedFrames := by
  unfold sharedFrames
  congr 1
  funext x
  rw [entry_modifyPages m p hPages]

/-- More processes may exist, but they have no pages that count. -/
theorem sharedFrames_keep_more (hCounted : s.sharedFrames.Counted)
    (hMore : s.processCount ≤ t.processCount)
    (hOld : ∀ q g, q < s.processCount → Copied g →
      (t.entry q g).map PageEntry.frame = (s.entry q g).map PageEntry.frame)
    (hNew : ∀ q g, s.processCount ≤ q → q < t.processCount → Copied g → t.entry q g = none)
    (hCounts : ∀ f, t.count f = s.count f)
    (hFree : ∀ f, t.isFree f = true → s.isFree f = true) :
    t.sharedFrames.Counted ∧ s.sharedFrames.Extends t.sharedFrames := by
  refine hCounted.keep (Sharing.sharers_congr ?_) hCounts hFree
  rintro ⟨q, g⟩ r
  change (q, g) ∈ s.slots ∧ (s.entry q g).map PageEntry.frame = some r ↔
    (q, g) ∈ t.slots ∧ (t.entry q g).map PageEntry.frame = some r
  rw [mem_slots, mem_slots]
  constructor
  · rintro ⟨⟨hLess, hCopied⟩, hTarget⟩
    rw [hOld q g hLess hCopied]
    exact ⟨⟨by omega, hCopied⟩, hTarget⟩
  · rintro ⟨⟨hNow, hCopied⟩, hTarget⟩
    by_cases hLess : q < s.processCount
    · rw [hOld q g hLess hCopied] at hTarget
      exact ⟨⟨hLess, hCopied⟩, hTarget⟩
    · rw [hNew q g (by omega) hNow hCopied] at hTarget
      cases hTarget

/-! Where the pages of images and heaps are. -/

/-- The image of a process between the lowest 4 MiB and the virtual ranges. -/
structure Process.Placed (q : Process) : Prop where
  low : tableEntries * pageSize ≤ q.imageStart
  order : q.imageStart ≤ q.imageEnd
  high : q.imageEnd < userVirtualRangesStart
  aligned : q.imageEnd % pageSize = 0

/-- The image and the heap are in the part that a fork copies, and nothing else is mapped there. -/
structure Process.LocatedBy (q : Process) (isMapped : Nat → Bool) : Prop where
  inside : ∀ page, q.IsImagePage page ∨ q.IsHeapPage page → Copied page
  only : ∀ page, Copied page → isMapped page = true → q.IsImagePage page ∨ q.IsHeapPage page
  heap : q.heapBreak ≠ 0 → q.HeapOk ∧ q.heapStart = q.imageEnd
  unset : q.heapBreak = 0 → q.heapPages = 0
  mapped : ∀ page, q.IsHeapPage page → isMapped page = true

abbrev Located (p : Nat) : Prop :=
  (m.processes p).LocatedBy fun page => (m.entry p page).isSome

/-- The fields of a process that say where its image and its heap are. -/
def Process.bounds (q : Process) : Process :=
  { new 0 with
    imageStart := q.imageStart, imageEnd := q.imageEnd, heapStart := q.heapStart
    heapBreak := q.heapBreak, heapPages := q.heapPages }

section Located

variable {s t : Memory} {p q : Nat} {a b : Process}

theorem Process.LocatedBy.congr {isMapped isMapped' : Nat → Bool} (h : a.LocatedBy isMapped)
    (hBounds : b.bounds = a.bounds)
    (hMapped : ∀ page, Copied page → isMapped' page = isMapped page) : b.LocatedBy isMapped' := by
  cases a
  cases b
  cases hBounds
  refine ⟨h.inside, fun page hCopied hEntry => ?_, fun hSet => ?_, h.unset, fun page hHeap => ?_⟩
  · exact h.only page hCopied (hMapped page hCopied ▸ hEntry)
  · obtain ⟨hOk, hStart⟩ := h.heap hSet
    exact ⟨⟨hOk.aligned, hOk.user, hOk.pages_pos, hOk.lower, hOk.upper, hOk.limit⟩, hStart⟩
  · exact (hMapped page (h.inside page (.inr hHeap))).trans (h.mapped page hHeap)

theorem Process.bounds_of_fields (h : b.fields = a.fields) : b.bounds = a.bounds := by
  have hBounds := congrArg bounds h
  exact hBounds

theorem Process.Placed.of_image (h : a.Placed) (hStart : b.imageStart = a.imageStart)
    (hEnd : b.imageEnd = a.imageEnd) : b.Placed := by
  refine ⟨?_, ?_, ?_, ?_⟩
  · rw [hStart]
    exact h.low
  · rw [hStart, hEnd]
    exact h.order
  · rw [hEnd]
    exact h.high
  · rw [hEnd]
    exact h.aligned

theorem Process.Placed.of_bounds (h : a.Placed) (hBounds : b.bounds = a.bounds) : b.Placed := by
  have hStart := congrArg imageStart hBounds
  have hEnd := congrArg imageEnd hBounds
  exact h.of_image hStart hEnd

/-- The pages of the image, and the one right behind it, are copied by a fork. -/
theorem Process.Placed.copied {a : Process} (h : a.Placed) {page : Nat}
    (hStart : a.imageStart ≤ page * pageSize) (hEnd : page * pageSize ≤ a.imageEnd) : Copied page := by
  have hLow := h.low
  have hHigh := h.high
  refine ⟨?_, by omega⟩
  unfold tableEntries pageSize at *
  omega

theorem Located.of_image (hPlaced : (t.processes p).Placed ∨
      (t.processes p).imageStart = (t.processes p).imageEnd)
    (hOnly : ∀ page, Copied page → (t.entry p page).isSome = true →
      (t.processes p).IsImagePage page)
    (hBreak : (t.processes p).heapBreak = 0) (hPages : (t.processes p).heapPages = 0) :
    Located t p := by
  have hNone : ∀ page, ¬(t.processes p).IsHeapPage page := by
    rintro page ⟨hLow, hHigh⟩
    rw [hPages] at hHigh
    omega
  refine ⟨fun page hPage => ?_, fun page hCopied hEntry => .inl (hOnly page hCopied hEntry),
    fun hSet => absurd hBreak hSet, fun _ => hPages, fun page hHeap => absurd hHeap (hNone page)⟩
  obtain ⟨hLow, hHigh⟩ := hPage.resolve_right (hNone page)
  rcases hPlaced with hPlaced | hEmpty
  · exact hPlaced.copied hLow hHigh.le
  · omega

end Located

structure Sited : Prop where
  threads : MainThreads m
  unused : ∀ q page, m.processCount ≤ q → Copied page → m.entry q page = none
  located : ∀ q, Located m q
  placed : ∀ id thread, m.threads id = some thread → (m.processes thread.process).Placed

def Unmoved (s t : Memory) (q : Nat) : Prop :=
  (t.processes q).bounds = (s.processes q).bounds ∧
    ∀ page, Copied page → (t.entry q page).isSome = (s.entry q page).isSome

/-- Only the processes that a call moves have to be looked at. -/
theorem Sited.of_change (h : Sited s) (hThreads : MainThreads t)
    (hCount : s.processCount ≤ t.processCount)
    (hEach : ∀ q, Unmoved s t q ∨ q < t.processCount ∧ Located t q)
    (hOwners : ∀ id thread, t.threads id = some thread → (t.processes thread.process).Placed ∨
      Unmoved s t thread.process ∧
        ∃ other old, s.threads other = some old ∧ old.process = thread.process) : Sited t where
  threads := hThreads
  unused q page hMore hCopied := by
    rcases hEach q with ⟨-, hMapped⟩ | ⟨hLess, -⟩
    · have hSome := hMapped page hCopied
      rw [h.unused q page (hCount.trans hMore) hCopied] at hSome
      exact Option.isNone_iff_eq_none.mp (Option.isSome_eq_false_iff.mp hSome)
    · omega
  located q := by
    rcases hEach q with ⟨hBounds, hMapped⟩ | ⟨-, hLocated⟩
    · exact (h.located q).congr hBounds hMapped
    · exact hLocated
  placed id thread hThread := by
    rcases hOwners id thread hThread with hPlaced | ⟨⟨hBounds, -⟩, other, old, hOld, hSame⟩
    · exact hPlaced
    · have hPlaced := h.placed other old hOld
      rw [hSame] at hPlaced
      exact hPlaced.of_bounds hBounds

/-- A call that creates a thread, or changes one, leaves the others where they are. -/
theorem Sited.of_thread (h : Sited s) (hThreads : MainThreads t)
    (hCount : s.processCount ≤ t.processCount)
    (hEach : ∀ q, Unmoved s t q ∨ q < t.processCount ∧ Located t q) {id : Nat} {new : Thread}
    (hUpdate : t.threads = update s.threads id (some new))
    (hNew : (t.processes new.process).Placed)
    (hOthers : ∀ q < s.processCount, Unmoved s t q) : Sited t := by
  refine h.of_change hThreads hCount hEach fun other thread hThread => ?_
  rw [hUpdate] at hThread
  by_cases hSame : other = id
  · rw [hSame, update_self] at hThread
    cases hThread
    exact .inl hNew
  · rw [update_of_ne hSame] at hThread
    exact .inr ⟨hOthers _ (h.threads.main other thread hThread).2, other, thread, hThread, rfl⟩

def FewSharers : Prop :=
  ∀ f, m.sharedFrames.sharers f < 32767

structure SharedSound : Prop extends Sited m where
  counted : m.sharedFrames.Counted
  few : FewSharers m

/-- What a call does: pages are where they should be, and the counts are right unless one of
them has run over. -/
structure SharedNext (s t : Memory) : Prop extends Sited t where
  counts : FewSharers t → t.sharedFrames.Counted ∧ s.sharedFrames.Releases t.sharedFrames

theorem SharedNext.sound (h : SharedNext s t) (hFew : FewSharers t) : SharedSound t :=
  ⟨h.toSited, (h.counts hFew).1, hFew⟩

/-! A process is created and its image is loaded. -/

section Creation

variable {s t : Memory} {securityLevel p : Nat} {main : Option Nat}

variable (h : Created s t securityLevel p main)

include h

theorem Created.sameOthers {q : Nat} (hq : q ≠ p) : t.processes q = s.processes q := by
  obtain ⟨u, hSpares, hNone, hSome⟩ := h.spares
  cases main with
  | none =>
    rw [hNone rfl]
    exact hSpares.processes q hq
  | some id =>
    obtain ⟨-, kernelStackVirt, -, ht⟩ := hSome id rfl
    rw [ht]
    exact hSpares.processes q hq

theorem Created.isFree_of {f : Nat} (hFree : t.isFree f = true) : s.isFree f = true := by
  obtain ⟨u, hSpares, hNone, hSome⟩ := h.spares
  cases main with
  | none =>
    rw [hNone rfl] at hFree
    exact hSpares.isFree_of hFree
  | some id =>
    obtain ⟨-, kernelStackVirt, -, ht⟩ := hSome id rfl
    rw [ht] at hFree
    exact hSpares.isFree_of hFree

theorem Created.entry_eq_none {page : Nat} (hCopied : Copied page) : t.entry p page = none := by
  cases main with
  | none =>
    rw [entry_high hCopied.1, h.unthreaded rfl]
    rfl
  | some id =>
    obtain ⟨frame, -, -, -, hEntry⟩ := h.stack rfl
    rw [hEntry page hCopied.1, if_neg]
    rintro rfl
    exact absurd hCopied (by decide)

theorem Created.heap_eq :
    (t.processes p).imageStart = (t.processes p).imageEnd ∧ (t.processes p).heapBreak = 0 ∧
      (t.processes p).heapPages = 0 := by
  cases main with
  | none =>
    rw [h.unthreaded rfl]
    exact ⟨rfl, rfl, rfl⟩
  | some id =>
    have hStart := congrArg imageStart (h.fields rfl)
    have hEnd := congrArg imageEnd (h.fields rfl)
    have hBreak := congrArg heapBreak (h.fields rfl)
    have hPages := congrArg heapPages (h.fields rfl)
    exact ⟨hStart.trans hEnd.symm, hBreak, hPages⟩

theorem Created.counted (hSound : SharedSound s) :
    t.sharedFrames.Counted ∧ s.sharedFrames.Extends t.sharedFrames := by
  refine sharedFrames_keep_more hSound.counted h.processCount.le (fun q g hLess hCopied => ?_)
    (fun q g hMore _ hCopied => ?_) (count_of_references h.references) fun f => h.isFree_of
  · rw [entry_high hCopied.1, entry_high hCopied.1, h.sameOthers]
    rw [h.process_eq]
    omega
  · by_cases hq : q = p
    · rw [hq]
      exact h.entry_eq_none hCopied
    · rw [entry_high hCopied.1, h.sameOthers hq, ← entry_high hCopied.1]
      exact hSound.unused q g hMore hCopied

end Creation

end Kernel.Memory
