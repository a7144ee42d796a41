import MeetiX.Kernel.Memory.ImageLoading

/-! The reference counts through whole histories. Each call keeps the counts
right, and it gives back just those physical pages that no image or heap uses
any more. -/
namespace Kernel.Memory

open Base Function Process PageEntry Finset

namespace SharedSound

variable {s t u : Memory}

section Spawn

variable {securityLevel p : Nat} {main : Option Nat} {segments : List Segment} {tls : Option Segment}

theorem unmoved_of_created (hCreated : Created s u securityLevel p main) {q : Nat} (hq : q ≠ p) :
    Unmoved s u q := by
  refine ⟨by rw [hCreated.sameOthers hq], fun page hCopied => ?_⟩
  rw [entry_high hCopied.1, entry_high hCopied.1, hCreated.sameOthers hq]

/-- A process whose stacks could not be allocated has no image. -/
theorem unthreaded (h : SharedSound s)
    (hRun : (createProcess securityLevel).run s = .ok (p, none) t) : SharedNext s t := by
  have hCreated : Created s t securityLevel p none :=
    (createProcess_spec h.threads.layout h.threads.kernelRanges).of_returns hRun
  obtain ⟨hCounted, hExtends⟩ := hCreated.counted h
  refine ⟨h.toSited.of_change (h.threads.createProcess hRun) hCreated.processCount.le (fun q => ?_)
    fun id thread hThread => ?_, fun _ => ⟨hCounted, hExtends.releases⟩⟩
  · by_cases hq : q = p
    · subst hq
      obtain ⟨hEmpty, hBreak, hPages⟩ := hCreated.heap_eq
      refine .inr ⟨hCreated.process_eq ▸ hCreated.processCount,
        .of_image (.inr hEmpty) (fun page hCopied hEntry => ?_) hBreak hPages⟩
      rw [hCreated.entry_eq_none hCopied] at hEntry
      cases hEntry
    · exact .inl (unmoved_of_created hCreated hq)
  · obtain ⟨v, hSpares, hNone, -⟩ := hCreated.spares
    rw [hNone rfl, hSpares.threads] at hThread
    have hLess := (h.threads.main id thread hThread).2
    refine .inr ⟨unmoved_of_created hCreated ?_, id, thread, hThread, rfl⟩
    rw [hCreated.process_eq]
    omega

/-- A new process with its image keeps the counts right. -/
theorem loaded (h : SharedSound s) {id : Nat}
    (hCreate : (createProcess securityLevel).run s = .ok (p, some id) u)
    (hRun : (loadImage p segments tls).run u = .ok () t) (hFits : ImageFits segments)
    (hTls : TlsFits tls) (hThreads : MainThreads t) : SharedNext s t := by
  have hCreated : Created s u securityLevel p (some id) :=
    (createProcess_spec h.threads.layout h.threads.kernelRanges).of_returns hCreate
  obtain ⟨hCounted, hExtends⟩ := hCreated.counted h
  have hStart : Loading u p (imageStartOf segments) (imageEndOf segments)
      ((new securityLevel).setRanges mainRanges) u := by
    refine ⟨hCreated.layout, hCounted, .refl _, rfl, fun _ _ _ _ => rfl, fun _ _ => rfl,
      fun page hCopied hEntry => ?_, hCreated.fields rfl⟩
    rw [hCreated.entry_eq_none hCopied] at hEntry
    cases hEntry
  obtain ⟨ranges, hLoading⟩ := hStart.loadImage rfl rfl hFits hTls hRun
  have hSame : Undisturbed u t := Keeps.of_returns rfl hRun
  have hOthers : ∀ q, q ≠ p → Unmoved s t q := by
    intro q hq
    obtain ⟨hBounds, hMapped⟩ := unmoved_of_created hCreated hq
    refine ⟨(bounds_of_fields (hLoading.otherFields q hq)).trans hBounds,
      fun page hCopied => ?_⟩
    rw [hLoading.others q hq page hCopied]
    exact hMapped page hCopied
  -- the new process
  have hBegin := congrArg imageStart hLoading.fields
  have hEnd := congrArg imageEnd hLoading.fields
  have hPlaced : (t.processes p).Placed := by
    obtain ⟨hLow, hOrder, hHigh⟩ := hFits
    have hImage : Process.Placed (((new securityLevel).setImage (imageStartOf segments)
        (imageEndOf segments))) := ⟨hLow, hOrder, hHigh, pageAlignUp_mod _⟩
    exact hImage.of_image hBegin hEnd
  obtain ⟨v, hSpares, -, hSome⟩ := hCreated.spares
  obtain ⟨-, kernelStackVirt, -, hu⟩ := hSome id rfl
  have hUpdate : t.threads = update s.threads id (some (Thread.main p kernelStackVirt)) := by
    rw [hSame.fields.1, hu]
  refine ⟨h.toSited.of_thread hThreads (hLoading.processCount ▸ hCreated.processCount.le)
    (fun q => ?_) hUpdate hPlaced fun q hLess => hOthers q ?_,
    fun _ => ⟨hLoading.counted, (hExtends.trans hLoading.since).releases⟩⟩
  · by_cases hq : q = p
    · subst hq
      have hBreak := congrArg heapBreak hLoading.fields
      have hPages := congrArg heapPages hLoading.fields
      refine .inr ⟨?_, .of_image (.inl hPlaced) (fun page hCopied hEntry => ?_) hBreak hPages⟩
      · rw [hLoading.processCount]
        exact hCreated.process_eq ▸ hCreated.processCount
      · obtain ⟨hLow, hHigh⟩ := hLoading.own page hCopied hEntry
        exact ⟨hBegin.trans_le hLow, hHigh.trans_eq hEnd.symm⟩
    · exact .inl (hOthers q hq)
  · rw [hCreated.process_eq]
    omega

end Spawn

end SharedSound

/-! The calls of `sbrk`. -/

section Sbrk

variable {s a b t : Memory} {p n page : Nat}

theorem Located.isHeapPage_iff (h : Located s p) : (s.processes p).IsHeapPage page ↔
    (s.processes p).imageEnd ≤ page * pageSize ∧
      page * pageSize < (s.processes p).imageEnd + (s.processes p).heapCount * pageSize := by
  unfold Process.IsHeapPage heapCount
  by_cases hUnset : (s.processes p).heapBreak = 0
  · rw [if_pos hUnset, h.unset hUnset]
    omega
  · rw [if_neg hUnset, (h.heap hUnset).2]

/-- Nothing that a fork copies is mapped behind the heap. -/
theorem Located.lt_of_mapped (h : Located s p) (hCopied : Copied page)
    (hSome : (s.entry p page).isSome = true) :
    page * pageSize < (s.processes p).imageEnd + (s.processes p).heapCount * pageSize := by
  rcases h.only page hCopied hSome with hImage | hHeap
  · have hBelow := hImage.2
    omega
  · exact (h.isHeapPage_iff.mp hHeap).2

/-- A heap behind the image is in the part that a fork copies. -/
theorem Process.Placed.copied_of_inArea {q : Process} (h : q.Placed)
    (hArea : InArea q.imageEnd page) : Copied page := by
  obtain ⟨hBase, hTop⟩ := hArea
  have hLow := h.low.trans h.order
  have hHigh := h.high
  unfold Copied userVirtualRangesStart userMaximumHeapBreak pageSize at *
  omega

/-- The physical pages during a call, when the heap behind the image has so many pages. -/
structure HeapShared (s : Memory) (p : Nat) (a : Memory) (n : Nat) : Prop where
  layout : Layout a
  processCount : a.processCount = s.processCount
  evolves : s.sharedFrames.Evolves a.sharedFrames
  few : ∀ f, a.sharedFrames.sharers f < 32767
  same : ∀ q page, Copied page → q ≠ p ∨ page * pageSize <
      (s.processes p).imageEnd + min (s.processes p).heapCount n * pageSize →
    a.entry q page = s.entry q page
  mapped : ∀ page, Copied page → (s.processes p).imageEnd ≤ page * pageSize →
    ((a.entry p page).isSome = true ↔ page * pageSize < (s.processes p).imageEnd + n * pageSize)

namespace HeapShared

theorem start (h : SharedSound s) (p : Nat) : HeapShared s p s (s.processes p).heapCount where
  layout := h.threads.layout
  processCount := rfl
  evolves := .refl h.counted
  few := h.few
  same _ _ _ _ := rfl
  mapped page hCopied hBelow := ⟨(h.located p).lt_of_mapped hCopied, fun hTop =>
    (h.located p).mapped page ((h.located p).isHeapPage_iff.mpr ⟨hBelow, hTop⟩)⟩

/-- No reference has been given up while the heap is not smaller than at first. -/
theorem kept (h : HeapShared s p a n) (hLocated : Located s p)
    (hMore : (s.processes p).heapCount ≤ n) (f : Nat) :
    s.sharedFrames.sharers f ≤ a.sharedFrames.sharers f := by
  refine card_le_card fun x hx => ?_
  obtain ⟨q, g⟩ := x
  obtain ⟨hPlace, hTarget⟩ := Sharing.mem_holders.mp hx
  have hCopied := (mem_slots.mp hPlace).2
  have hSame : a.entry q g = s.entry q g := by
    refine h.same q g hCopied ?_
    by_cases hq : q = p
    · subst hq
      rw [Nat.min_eq_left hMore]
      obtain ⟨e, hEntry, -⟩ := Option.map_eq_some_iff.mp hTarget
      exact .inr (hLocated.lt_of_mapped hCopied (by rw [hEntry]; rfl))
    · exact .inl hq
  refine Sharing.mem_holders.mpr ⟨?_, ?_⟩
  · change (q, g) ∈ a.slots
    rw [slots_of_count h.processCount]
    exact hPlace
  · change (a.entry q g).map frame = some f
    rw [hSame]
    exact hTarget

/-- The heap gets a page. -/
theorem add (h : HeapShared s p a n) (hLocated : Located s p)
    (hMore : (s.processes p).heapCount ≤ n)
    (hPage : page * pageSize = (s.processes p).imageEnd + n * pageSize) {frame : Nat}
    (hNew : NewPage a b p page frame true) (hOutside : OutsideHeap p a b) :
    HeapShared s p b (n + 1) := by
  obtain ⟨_, hMoves⟩ := hNew.moves h.evolves.counted hOutside.processCount
  have hSame : ∀ q g, Copied g → q ≠ p ∨ g ≠ page → b.entry q g = a.entry q g := by
    intro q g hCopy hNe
    rw [hNew.entry, if_neg fun ⟨hEq, hOwn, _⟩ => not_shared_page hCopy hNe ⟨hEq, hOwn⟩]
  refine ⟨hNew.layout, hOutside.processCount.trans h.processCount,
    h.evolves.move hMoves fun f hFree => .inl (h.evolves.free_of (h.kept hLocated hMore) hFree),
    fun f => (hMoves.sharers_le h.evolves.counted f).trans_lt (max_lt (by decide) (h.few f)),
    fun q g hCopy hPlace => ?_, fun g hCopy hBase => ?_⟩
  · rw [Nat.min_eq_left (Nat.le_succ_of_le hMore)] at hPlace
    rw [hSame q g hCopy (hPlace.imp_right ?_)]
    · exact h.same q g hCopy ((Nat.min_eq_left hMore).symm ▸ hPlace)
    · rintro hLess rfl
      unfold pageSize at *
      omega
  · rw [page_lt_succ hPage]
    by_cases hg : g = page
    · subst hg
      rw [hNew.entry_own]
      cases hEntry : a.entry p g <;> simp
    · rw [hSame p g hCopy (.inr hg), h.mapped g hCopy hBase]
      simp [hg]

/-- The heap gives up its last page. -/
theorem remove (h : HeapShared s p a (n + 1)) (hProcess : p < s.processCount)
    (hPage : page * pageSize = (s.processes p).imageEnd + n * pageSize) (hCopied : Copied page)
    (hReleased : ReleasedPage a b p page ((a.entry p page).elim 0 frame))
    (hOutside : OutsideHeap p a b) : HeapShared s p b n := by
  have hMapped :=
    (h.mapped page hCopied (by omega)).mpr ((page_lt_succ hPage).mpr (.inl rfl))
  obtain ⟨e, hEntry⟩ := Option.isSome_iff_exists.mp hMapped
  rw [hEntry] at hReleased
  have hPlace : (p, page) ∈ a.slots := mem_slots.mpr ⟨by rw [h.processCount]; exact hProcess, hCopied⟩
  have hMoves := hReleased.moves h.evolves.counted hOutside.processCount hPlace hEntry (h.few _)
  have hSame : ∀ q g, Copied g → q ≠ p ∨ g ≠ page → b.entry q g = a.entry q g := by
    intro q g hCopy hNe
    rw [hReleased.entry, if_neg (not_shared_page hCopy hNe)]
  refine ⟨hReleased.layout, hOutside.processCount.trans h.processCount,
    h.evolves.move hMoves fun f hFree => .inr (hReleased.free_mono f hFree),
    fun f => (hMoves.sharers_le h.evolves.counted f).trans_lt (max_lt (by decide) (h.few f)),
    fun q g hCopy hPlace => ?_, fun g hCopy hBase => ?_⟩
  · rw [hSame q g hCopy (hPlace.imp_right ?_)]
    · refine h.same q g hCopy (hPlace.imp_right fun hLess => hLess.trans_le ?_)
      gcongr
      exact Nat.le_succ n
    · rintro hLess rfl
      unfold pageSize at *
      omega
  · by_cases hg : g = page
    · subst hg
      rw [hReleased.entry, if_pos ⟨rfl, .inr rfl⟩, hPage]
      simp
    · rw [hSame p g hCopy (.inr hg), h.mapped g hCopy hBase, page_lt_succ hPage]
      simp [hg]

theorem setBreak (h : HeapShared s p a n) (brk : Nat) :
    HeapShared s p (a.modifyProcess p (setBreak brk)) n := by
  have hEntry := entry_modifyFields a p (sameSpace_setBreak brk)
  have hShared : (a.modifyProcess p (Memory.setBreak brk)).sharedFrames = a.sharedFrames :=
    sharedFrames_modifyFields a p fun _ => rfl
  refine ⟨?_, h.processCount, ?_, fun f => ?_, ?_, ?_⟩
  · exact KeptByGrowth.fields a p _ (sameSpace_setBreak brk) h.layout
  · rw [hShared]
    exact h.evolves
  · rw [hShared]
    exact h.few f
  all_goals simp only [hEntry]
  · exact h.same
  · exact h.mapped

section Call

variable (hPlaced : (s.processes p).Placed) (hLocated : Located s p)

include hPlaced hLocated

theorem rule (hProcess : p < s.processCount) :
    HeapRule p (s.processes p).imageEnd (s.processes p).heapCount (HeapShared s p) where
  layout _ _ h := h.layout
  mapped _ _ page h hPage hArea := (h.mapped page (hPlaced.copied_of_inArea hArea) hArea.1).mpr
    ((page_lt_succ hPage).mpr (.inl rfl))
  add _ _ _ _ _ h hMore hPage _ hNew hOutside := h.add hLocated hMore hPage hNew hOutside
  remove _ _ _ _ h hPage hArea hReleased hOutside :=
    h.remove hProcess hPage (hPlaced.copied_of_inArea hArea) hReleased hOutside
  setBreak _ _ brk h := h.setBreak brk

/-- After the call the pages of the heap are those of the new break. -/
theorem located {amount : Int} {result : SbrkResult}
    (h : HeapShared s p t (t.processes p).heapPages) (hOutcome : SbrkOutcome s t p amount result) :
    Located t p := by
  have hEnd := hOutcome.outside.imageEnd_eq
  have hOk := hOutcome.heapOk
  have hHeapNow : ∀ page, (t.processes p).IsHeapPage page ↔
      (s.processes p).imageEnd ≤ page * pageSize ∧
        page * pageSize < (s.processes p).imageEnd + (t.processes p).heapPages * pageSize := by
    intro page
    unfold Process.IsHeapPage
    rw [hOutcome.start, hEnd]
  have hImageNow : ∀ page, (t.processes p).IsImagePage page ↔ (s.processes p).IsImagePage page := by
    intro page
    unfold Process.IsImagePage
    rw [hOutcome.outside.imageStart_eq, hEnd]
  have hInside : ∀ page, (t.processes p).IsHeapPage page → Copied page := by
    intro page hHeap
    obtain ⟨hBelow, hTop⟩ := (hHeapNow page).mp hHeap
    refine hPlaced.copied_of_inArea ⟨hBelow, ?_⟩
    have hStart := hOutcome.start.trans hEnd
    have hLower := hOk.lower
    have hLimit := hOk.limit
    have hAligned := hOk.aligned
    unfold pageSize at *
    omega
  refine ⟨fun page hPage => ?_, fun page hCopy hSome => ?_, fun _ => ⟨hOk, hOutcome.start⟩,
    fun hZero => ?_, fun page hHeap => ?_⟩
  · rcases hPage with hImagePage | hHeap
    · exact hLocated.inside page (.inl ((hImageNow page).mp hImagePage))
    · exact hInside page hHeap
  · by_cases hBelow : (s.processes p).imageEnd ≤ page * pageSize
    · exact .inr ((hHeapNow page).mpr ⟨hBelow, (h.mapped page hCopy hBelow).mp hSome⟩)
    · rw [h.same p page hCopy (.inr (by omega))] at hSome
      refine .inl ((hImageNow page).mpr ((hLocated.only page hCopy hSome).resolve_right ?_))
      exact fun hHeap => hBelow (hLocated.isHeapPage_iff.mp hHeap).1
  · have hLow := hPlaced.low.trans hPlaced.order
    have hStart := hOutcome.start.trans hEnd
    have hLower := hOk.lower
    have hPositive : 0 < tableEntries * pageSize := by decide
    omega
  · obtain ⟨hBelow, hTop⟩ := (hHeapNow page).mp hHeap
    exact (h.mapped page (hInside page hHeap) hBelow).mpr hTop

end Call

end HeapShared

/-- A call that keeps the break behind the image. -/
theorem SharedSound.sbrk (h : SharedSound s) {id : Nat} {thread : Thread} {amount : Int}
    {result : SbrkResult} (hThread : s.threads id = some thread)
    (hNotBelow : NotBelow s thread.process amount)
    (hRun : (Memory.sbrk thread.process amount).run s = .ok result t) : SharedNext s t := by
  have hProcess := (h.threads.main id thread hThread).2
  have hPlaced := h.placed id thread hThread
  have hLocated := h.located thread.process
  have hThreads : MainThreads t := h.threads.step (.sbrk hThread hRun)
  generalize thread.process = p at *
  obtain ⟨hCore, hOutcome⟩ := ((HeapShared.rule hPlaced hLocated hProcess).sbrk rfl rfl
    (.start h p) hLocated.heap hNotBelow).of_returns hRun
  have hOthers : ∀ q, q ≠ p → Unmoved s t q := by
    refine fun q hq => ⟨bounds_of_fields (hOutcome.outside.others q hq), fun page hCopy => ?_⟩
    rw [hCore.same q page hCopy (.inl hq)]
  refine ⟨h.toSited.of_change hThreads hCore.processCount.ge (fun q => ?_)
    fun other owner hOwner => ?_, fun _ => ⟨hCore.evolves.counted, hCore.evolves.releases⟩⟩
  · by_cases hq : q = p
    · subst hq
      exact .inr ⟨hCore.processCount ▸ hProcess, hCore.located hPlaced hLocated hOutcome⟩
    · exact .inl (hOthers q hq)
  · rw [hOutcome.outside.threads] at hOwner
    by_cases hq : owner.process = p
    · rw [hq]
      exact .inl (hPlaced.of_image hOutcome.outside.imageStart_eq hOutcome.outside.imageEnd_eq)
    · exact .inr ⟨hOthers _ hq, other, owner, hOwner, rfl⟩

end Sbrk

/-! Forks. -/

section Fork

variable {s t : Memory} {thread : Thread} {child id : Nat}

theorem bump_iterate {n : Int} {k : Nat} (hLow : 0 ≤ n) (hHigh : n + k ≤ 32767) :
    bump^[k] n = n + k := by
  induction k with
  | zero => simp
  | succ k ih =>
    rw [iterate_succ_apply', ih (by omega)]
    unfold bump
    rw [bmod_of_small (by omega) (by omega)]
    omega

theorem Forked.frame_of_ne (h : Forked s t thread child id) {q page : Nat} (hq : q ≠ child)
    (hCopied : Copied page) :
    (t.entry q page).map frame = (s.entry q page).map frame := by
  rw [entry_high hCopied.1, entry_high hCopied.1]
  by_cases hParent : q = thread.process
  · subst hParent
    rw [h.parent]
    dsimp only [protectPages]
    rw [if_pos hCopied, Option.map_map]
    rfl
  · obtain ⟨u, hSpares, kernelStackVirt, -, ht⟩ := h.spares
    rw [ht, hSpares.processes q ⟨hq, hParent⟩]

theorem Forked.frame_child (h : Forked s t thread child id) {page : Nat} (hCopied : Copied page) :
    (t.entry child page).map frame =
      (s.entry thread.process page).map frame := by
  rw [h.copied page hCopied, Option.map_map]
  rfl

/-- The child is one more sharer for each page of the parent. -/
theorem Forked.sharers (h : Forked s t thread child id)
    (hUnused : ∀ q page, s.processCount ≤ q → Copied page → s.entry q page = none) (f : Nat) :
    t.sharedFrames.sharers f = s.sharedFrames.sharers f + copies s thread.process copiedPages f := by
  have hHolders : t.sharedFrames.holders f = s.sharedFrames.holders f ∪
      {child} ×ˢ copiedPages.filter fun page =>
        (s.entry thread.process page).map frame = some f := by
    ext ⟨q, g⟩
    have hCount := h.processCount
    have hChild := h.child_eq
    rw [mem_union, mem_product, mem_filter, copied_iff, mem_singleton,
      Sharing.mem_holders, Sharing.mem_holders]
    change (q, g) ∈ t.slots ∧ (t.entry q g).map frame = some f ↔
      (q, g) ∈ s.slots ∧ (s.entry q g).map frame = some f ∨ _
    rw [mem_slots, mem_slots]
    by_cases hCopied : Copied g
    · by_cases hq : q = child
      · subst hq
        rw [h.frame_child hCopied]
        simp only [hCopied, and_true, true_and]
        constructor
        · rintro ⟨-, hTarget⟩
          exact .inr hTarget
        · rintro (⟨hLess, -⟩ | hTarget)
          · omega
          · exact ⟨by omega, hTarget⟩
      · rw [h.frame_of_ne hq hCopied]
        simp only [hCopied, hq, and_true, false_and, or_false]
        constructor
        · rintro ⟨-, hTarget⟩
          refine ⟨?_, hTarget⟩
          by_contra hMore
          rw [hUnused q g (by omega) hCopied] at hTarget
          cases hTarget
        · rintro ⟨hLess, hTarget⟩
          exact ⟨by omega, hTarget⟩
    · simp only [hCopied, and_false, false_and, or_false]
  unfold Sharing.sharers
  rw [hHolders, card_union_of_disjoint, card_product, card_singleton, one_mul]
  · rfl
  · rw [disjoint_left]
    rintro ⟨q, g⟩ hOld hNew
    have hLess := (mem_slots.mp (Sharing.mem_holders.mp hOld).1).1
    have hSame := mem_singleton.mp (mem_product.mp hNew).1
    have hChild := h.child_eq
    omega

theorem Forked.counts (hForked : Forked s t thread child id) (h : SharedSound s)
    (hProcess : thread.process < s.processCount) (hFew : FewSharers t) :
    t.sharedFrames.Counted ∧ s.sharedFrames.Extends t.sharedFrames := by
  have hSharers := hForked.sharers h.unused
  have hMore : ∀ f, s.sharedFrames.sharers f = 0 → copies s thread.process copiedPages f = 0 := by
    intro f hNone
    rw [copies, card_eq_zero, filter_eq_empty_iff]
    intro page hPage hTarget
    have hPlace : (thread.process, page) ∈ s.slots :=
      mem_slots.mpr ⟨hProcess, copied_iff.mp hPage⟩
    have hShared : 0 < s.sharedFrames.sharers f := Sharing.sharers_pos_of_mem hPlace hTarget
    omega
  refine h.counted.copy hSharers hMore (fun f hShared => ?_) (fun f hNone => ?_) fun f hFree => ?_
  · have hEq := (h.counted.shared f hShared).1
    have hBound := hFew f
    rw [hSharers] at hBound
    change t.count f = s.count f + _
    change s.count f = _ at hEq
    rw [hForked.count, bump_iterate (by omega) (by omega)]
  · change t.count f = s.count f
    rw [hForked.count, hMore f hNone]
    rfl
  · obtain ⟨u, hSpares, kernelStackVirt, -, ht⟩ := hForked.spares
    rw [ht] at hFree
    exact hSpares.isFree_of hFree

/-- A fork counts each page that parent and child share. -/
theorem SharedSound.fork (h : SharedSound s) {source : Nat} (hThread : s.threads source = some thread)
    (hRun : (Memory.fork thread).run s = .ok (child, id) t) : SharedNext s t := by
  obtain ⟨hForked, hThreads⟩ := h.threads.fork hThread hRun
  have hProcess := (h.threads.main source thread hThread).2
  have hChild := hForked.child_eq
  have hCount := hForked.processCount
  obtain ⟨u, hSpares, kernelStackVirt, -, ht⟩ := hForked.spares
  have hSame : ∀ q, q ≠ child → (t.processes q).fields = (s.processes q).fields := by
    intro q hq
    by_cases hParent : q = thread.process
    · subst hParent
      rw [hForked.parent]
      rfl
    · rw [ht, hSpares.processes q ⟨hq, hParent⟩]
  have hBounds : (t.processes child).bounds = (s.processes thread.process).bounds := by
    have hCopy := bounds_of_fields hForked.fields
    exact hCopy
  have hMapped : ∀ a b : Option PageEntry, a.map frame = b.map frame →
      a.isSome = b.isSome := by
    intro a b hEq
    rw [← Option.isSome_map (f := frame), hEq, Option.isSome_map]
  have hOthers : ∀ q, q ≠ child → Unmoved s t q := fun q hq =>
    ⟨bounds_of_fields (hSame q hq), fun page hCopied =>
      hMapped _ _ (hForked.frame_of_ne hq hCopied)⟩
  have hUpdate : t.threads = update s.threads id (some (thread.forked child kernelStackVirt)) := by
    rw [ht]
  refine ⟨h.toSited.of_thread hThreads hCount.le (fun q => ?_) hUpdate
    ((h.placed source thread hThread).of_bounds hBounds) fun q hLess => hOthers q (by omega),
    fun hFew => (hForked.counts h hProcess hFew).imp_right Sharing.Extends.releases⟩
  by_cases hq : q = child
  · rw [hq]
    exact .inr ⟨by omega, (h.located thread.process).congr hBounds fun page hCopied =>
      hMapped _ _ (hForked.frame_child hCopied)⟩
  · exact .inl (hOthers q hq)

end Fork

/-! Writes. -/

section Write

variable {s t : Memory}

/-- A write, with the page fault that it may cause. -/
theorem SharedSound.write (h : SharedSound s) {id address : Nat} {thread : Thread} {value : UInt8}
    {result : FaultResult} (hThread : s.threads id = some thread)
    (hRun : (Memory.write id thread address value).run s = .ok result t) : SharedNext s t := by
  have hThreads := h.threads.write hThread hRun
  obtain ⟨hMain, hProcess⟩ := h.threads.main id thread hThread
  obtain ⟨u, contents, hEffect, rfl⟩ := (write_effect h.threads.layout hMain).of_returns hRun
  cases hEffect with
  | plain =>
    have hSame : ∀ q, Unmoved s s q := fun _ => ⟨rfl, fun _ _ => rfl⟩
    refine ⟨h.toSited.of_change hThreads (le_refl _) (fun q => .inl (hSame q))
      fun other owner hOwner => .inr ⟨hSame _, other, owner, hOwner, rfl⟩, fun _ => ⟨h.counted, ?_⟩⟩
    exact (Sharing.Extends.refl s.sharedFrames).releases
  | @grown v hArea hBelow hGrown =>
    -- the stack is outside the part that is copied
    have hEntry : ∀ q page, Copied page → v.entry q page = s.entry q page := by
      intro q page hCopied
      by_cases hq : q = thread.process
      · rw [hq]
        refine hGrown.outside page (.inl ?_)
        have hHigh := hCopied.2
        have hLow := hArea.1
        unfold userVirtualRangesStart pageSize at *
        omega
      · rw [entry_high hCopied.1, entry_high hCopied.1, hGrown.spares.processes q hq]
    obtain ⟨hCounted, hExtends⟩ := sharedFrames_keep_more h.counted hGrown.spares.processCount
      (fun q g _ hCopied => by rw [hEntry q g hCopied])
      (fun q g hMore _ hCopied => (hEntry q g hCopied).trans (h.unused q g hMore hCopied))
      (count_of_references hGrown.references) fun f => hGrown.spares.isFree_of
    have hSame : ∀ q, Unmoved s v q := by
      refine fun q => ⟨bounds_of_fields ?_, fun page hCopied => ?_⟩
      · by_cases hq : q = thread.process
        · rw [hq]
          exact hGrown.fields
        · exact congrArg fields (hGrown.spares.processes q hq)
      · exact congrArg Option.isSome (hEntry q page hCopied)
    exact ⟨h.toSited.of_thread hThreads hGrown.spares.processCount (fun q => .inl (hSame q)) rfl
      ((h.placed id thread hThread).of_bounds (hSame _).1) fun q _ => hSame q,
      fun _ => ⟨hCounted, hExtends.releases⟩⟩
  | @copied _ phys hStart hEnd hCopy hMapped =>
    have hCopied : Copied (address / pageSize) := (h.placed id thread hThread).copied hStart hEnd
    have hUser : address / pageSize * pageSize < kernelAreaStart :=
      hCopied.2.trans (by decide)
    obtain ⟨e, hEntry, rfl⟩ := hMapped hUser
    have hPlace : (thread.process, address / pageSize) ∈ s.slots :=
      mem_slots.mpr ⟨hProcess, hCopied⟩
    have hUsed := (counted_of_entry h.counted hPlace hEntry (h.few e.frame)).2.2.2
    obtain ⟨new, hCopiedNow⟩ :=
      (copyOnWrite_spec h.threads.layout hUser hEntry (Bool.eq_false_iff.mpr hUsed)).of_returns hCopy
    have hMoves := hCopiedNow.moves h.counted hPlace hEntry (h.few e.frame)
    have hSame : ∀ q, Unmoved s u q := by
      refine fun q => ⟨bounds_of_fields (hCopiedNow.fields q), fun page hCopied => ?_⟩
      by_cases hOwn : q = thread.process ∧ page = address / pageSize
      · obtain ⟨rfl, rfl⟩ := hOwn
        rw [hCopiedNow.entry, if_pos ⟨rfl, .inr rfl⟩, hEntry]
        rfl
      · rw [hCopiedNow.entry, if_neg (not_shared_page hCopied (not_and_or.mp hOwn))]
    refine ⟨h.toSited.of_change hThreads hCopiedNow.processCount.ge (fun q => .inl (hSame q))
      fun other owner hOwner => .inr ⟨hSame _, other, owner, ?_, rfl⟩,
      fun _ => ⟨hMoves.counted h.counted, hMoves.releases h.counted⟩⟩
    rw [hCopiedNow.threads] at hOwner
    exact hOwner

end Write

end Kernel.Memory
