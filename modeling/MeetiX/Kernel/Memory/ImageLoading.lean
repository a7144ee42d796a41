import MeetiX.Kernel.Memory.SharedFrames

/-! The loader of ELF files and the counts of physical pages. An image goes where the file says;
the master copy for thread local storage goes into the virtual ranges if there is room for it. -/
namespace Kernel.Memory

open Base AddressRangePool

/-- Where an image has to be for its pages, and the page behind it, to be copied by a fork. -/
def ImageFits (segments : List Segment) : Prop :=
  tableEntries * pageSize ≤ imageStartOf segments ∧ imageStartOf segments ≤ imageEndOf segments ∧
    imageEndOf segments < userVirtualRangesStart

/-- What the virtual ranges have left when the stack has been allocated. -/
def tlsLimit : Nat := 0x1FFF0000

def TlsFits (tls : Option Segment) : Prop :=
  ∀ segment ∈ tls, segment.memsz ≤ tlsLimit

instance (segments : List Segment) : Decidable (ImageFits segments) :=
  inferInstanceAs (Decidable (_ ∧ _ ∧ _))

instance (tls : Option Segment) : Decidable (TlsFits tls) :=
  match tls with
  | none => isTrue fun _ hNone => nomatch hNone
  | some segment => decidable_of_iff (segment.memsz ≤ tlsLimit)
      ⟨fun h _ hSame => Option.some.inj hSame ▸ h, fun h => h segment rfl⟩

def Process.setImage (imageStart imageEnd : Nat) (q : Process) : Process :=
  { q with imageStart := imageStart, imageEnd := imageEnd }

/-- What the loader has done so far for a new process: all that it has mapped in the part that a
fork copies lies between two bounds. -/
structure Loading (u : Memory) (p low high : Nat) (process : Process) (a : Memory) : Prop where
  layout : Layout a
  counted : a.sharedFrames.Counted
  since : u.sharedFrames.Extends a.sharedFrames
  processCount : a.processCount = u.processCount
  others : ∀ q, q ≠ p → ∀ page, Copied page → a.entry q page = u.entry q page
  otherFields : ∀ q, q ≠ p → (a.processes q).fields = (u.processes q).fields
  own : ∀ page, Copied page → (a.entry p page).isSome = true →
    low ≤ page * pageSize ∧ page * pageSize < high
  fields : (a.processes p).fields = process.fields

namespace Loading

variable {u a t : Memory} {p low high : Nat} {process : Process} {segments : List Segment}

instance : KeptByContents (Loading u p low high process) where
  contents _ _ h :=
    ⟨h.layout.of_spaces rfl rfl, h.counted, h.since, h.processCount, h.others, h.otherFields, h.own,
      h.fields⟩

theorem takeFrame (h : Loading u p low high process a) (frame : Nat) :
    Loading u p low high process (a.takeFrame frame) := by
  obtain ⟨hCounted, hExtends⟩ := sharedFrames_keep_more (t := a.takeFrame frame) h.counted
    le_rfl (fun _ _ _ _ => rfl) (fun q g hMore hLess => absurd hLess hMore.not_gt) (fun _ => rfl)
    fun f hFree => (isFree_takeFrame hFree).1
  exact ⟨h.layout.of_spaces rfl rfl, hCounted, h.since.trans hExtends, h.processCount, h.others,
    h.otherFields, h.own, h.fields⟩

theorem newPage (h : Loading u p low high process a) {page frame : Nat} (hRest : SameRest a t)
    (hPage : NewPage a t p page frame true)
    (hInside : Copied page → low ≤ page * pageSize ∧ page * pageSize < high) :
    Loading u p low high process t := by
  obtain ⟨_, hMoves⟩ := hPage.moves h.counted hRest.processCount
  obtain ⟨hCounted, hExtends⟩ := hMoves.extends h.counted
  refine ⟨hPage.layout, hCounted, h.since.trans hExtends, hRest.processCount.trans h.processCount,
    fun q hq g hCopied => ?_, fun q hq => (hRest.fields q).trans (h.otherFields q hq),
    fun g hCopied hEntry => ?_, (hRest.fields p).trans h.fields⟩
  · rw [hPage.entry, if_neg fun ⟨hSame, hOwn, _⟩ => not_shared_page hCopied (.inl hq) ⟨hSame, hOwn⟩]
    exact h.others q hq g hCopied
  · rw [hPage.entry_own] at hEntry
    by_cases hNew : g = page
    · subst hNew
      exact hInside hCopied
    · rw [if_neg fun hBoth => hNew hBoth.1] at hEntry
      exact h.own g hCopied hEntry

theorem keeps_mapNewPage {virtualAddr : Nat} (hInside : Copied (virtualAddr / pageSize) →
      low ≤ virtualAddr / pageSize * pageSize ∧ virtualAddr / pageSize * pageSize < high) :
    Keeps (Loading u p low high process) (mapNewPage p virtualAddr true) :=
  .of_after fun a h => by
    cases hRun : (mapNewPage p virtualAddr true).run a with
    | ok value t =>
      obtain ⟨-, -, hRest, frame, hPage⟩ := mapNewPage_returns h.layout hRun
      exact h.newPage hRest hPage hInside
    | error reason t =>
      rcases (mapNewPage_spec.of_stops hRun).1 with rfl | ⟨frame, rfl⟩
      · exact h
      · exact h.takeFrame frame

theorem keeps_mapNewPages {base pages : Nat} (hInside : ∀ i < pages,
      Copied (pageAddress base i / pageSize) →
        low ≤ pageAddress base i / pageSize * pageSize ∧
          pageAddress base i / pageSize * pageSize < high) :
    Keeps (Loading u p low high process) (mapNewPages p base pages true) := by
  have hPage : ∀ i ∈ List.range pages,
      Keeps (Loading u p low high process) (mapNewPage p (pageAddress base i) true) :=
    fun i hMem => keeps_mapNewPage (hInside i (List.mem_range.mp hMem))
  refine @Ensures.bind _ _ _ _ _ _ _ _ (Ensures.forIn_of_mem _ _ _ fun i hMem _ => ?_) fun _ => ?_
  · have hKeeps := hPage i hMem
    infer_instance
  · infer_instance

theorem modify (h : Loading u p low high process a) {change : Process → Process}
    (hLayout : Layout (a.modifyProcess p change)) (hPages : ∀ q, (change q).pages = q.pages)
    (hFields : ∀ q, (change q).fields = (change q.fields).fields) :
    Loading u p low high (change process) (a.modifyProcess p change) := by
  have hEntry := entry_modifyPages a p hPages
  have hShared := sharedFrames_modifyFields a p hPages
  refine ⟨hLayout, hShared ▸ h.counted, hShared ▸ h.since, h.processCount, fun q hq page hCopied => ?_,
    fun q hq => ?_, fun page hCopied hMapped => ?_, ?_⟩
  · rw [hEntry]
    exact h.others q hq page hCopied
  · rw [modifyProcess_processes, if_neg hq]
    exact h.otherFields q hq
  · rw [hEntry] at hMapped
    exact h.own page hCopied hMapped
  · rw [modifyProcess_processes, if_pos rfl, hFields, h.fields, ← hFields]

theorem loadLoadSegment (h : Loading u p (imageStartOf segments) (imageEndOf segments) process a)
    (hFits : ImageFits segments) (hRun : (Memory.loadLoadSegment p segments).run a = .ok () t) :
    Loading u p (imageStartOf segments) (imageEndOf segments)
      (process.setImage (imageStartOf segments) (imageEndOf segments)) t := by
  obtain ⟨hLow, hOrder, hHigh⟩ := hFits
  have hInside : ∀ i < (imageEndOf segments - imageStartOf segments) / pageSize,
      Copied (pageAddress (imageStartOf segments) i / pageSize) →
        imageStartOf segments ≤ pageAddress (imageStartOf segments) i / pageSize * pageSize ∧
          pageAddress (imageStartOf segments) i / pageSize * pageSize < imageEndOf segments := by
    intro i hi _
    have hStart : imageStartOf segments % pageSize = 0 := pageAlignDown_mod _
    have hBound : imageStartOf segments + i * pageSize < imageEndOf segments := by
      unfold pageSize at *
      omega
    have hWord : userVirtualRangesStart < wordSize := by decide
    rw [pageAddress_eq (by omega), page_add, Nat.add_mul, Nat.div_mul_cancel]
    · exact ⟨Nat.le_add_right .., hBound⟩
    · exact Nat.dvd_of_mod_eq_zero hStart
  have hMapping : Keeps (Loading u p _ _ process) _ := keeps_mapNewPages hInside
  obtain ⟨_, b, hMap, hRun⟩ := bind_returns_iff.mp hRun
  obtain ⟨_, c, hBytes, hRun⟩ := bind_returns_iff.mp hRun
  cases hRun
  have hMapped : Loading u p _ _ process b := Keeps.of_returns h hMap
  have hLoaded : Loading u p _ _ process c := Keeps.of_returns hMapped hBytes
  let change := Process.setImage (imageStartOf segments) (imageEndOf segments)
  have hLayout : Layout (c.modifyProcess p change) :=
    KeptByGrowth.fields c p change (fun _ => ⟨rfl, rfl, rfl⟩) hLoaded.layout
  exact hLoaded.modify hLayout (fun _ => rfl) fun _ => rfl

theorem allocate_tls {pages : Nat} (hPages : pages ≤ tlsLimit / pageSize) (flags : Nat) :
    (allocate mainRanges pages flags).1 = 0xA0010000 := by
  have hRanges : mainRanges = [⟨true, 0xA0000000, 16, 0⟩, ⟨false, 0xA0010000, 0x1FFF0, 0⟩] := by
    decide
  have hRoom : (if pages = 0 then 1 else pages) ≤ 0x1FFF0 := by
    have hLimit : tlsLimit / pageSize = 0x1FFF0 := by decide
    split
    · decide
    · omega
  rw [hRanges]
  unfold allocate allocateFrom allocateFrom
  simp [hRoom]

theorem loadTlsMasterCopy (h : Loading u p low high process a) (hMain : process.virtualRanges = mainRanges)
    {segment : Segment} (hFits : segment.memsz ≤ tlsLimit)
    (hRun : (Memory.loadTlsMasterCopy p segment).run a = .ok () t) :
    ∃ ranges, Loading u p low high (process.setRanges ranges) t := by
  have hPages : pageAlignUp segment.memsz / pageSize ≤ tlsLimit / pageSize := by
    unfold pageAlignUp wrap32 pageAlignDown tlsLimit pageSize wordSize at *
    split
    · omega
    · omega
  obtain ⟨tlsStart, b, hRange, hRun⟩ := bind_returns_iff.mp hRun
  obtain ⟨_, c, hMap, hBytes⟩ := bind_returns_iff.mp hRun
  have hRanges : (a.processes p).virtualRanges = mainRanges := by
    have hField := congrArg Process.virtualRanges h.fields
    exact hField.trans hMain
  cases hRange
  rw [hRanges, allocate_tls hPages] at hMap
  let ranges :=
    (allocate mainRanges (pageAlignUp segment.memsz / pageSize) rangeFlagNone).2
  have hAllocated : Loading u p low high (process.setRanges ranges)
      (a.modifyProcess p (Process.setRanges ranges)) := by
    refine h.modify ?_ (fun _ => rfl) fun _ => rfl
    refine h.layout.modifyProcess p _ ?_ (fun _ => rfl) fun _ => rfl
    have hOk := h.layout.ranges p
    rw [hRanges] at hOk
    exact hOk.allocate _ _
  have hMapping : Keeps (Loading u p low high (process.setRanges ranges))
      (mapNewPages p 0xA0010000 (pageAlignUp segment.memsz / pageSize) true) := by
    refine keeps_mapNewPages fun i hi hCopied => ?_
    -- none of these pages is copied by a fork
    have hLimit : tlsLimit / pageSize = 0x1FFF0 := by decide
    rw [pageAddress_eq (by unfold wordSize pageSize; omega)] at hCopied
    obtain ⟨-, hHigh⟩ := hCopied
    unfold userVirtualRangesStart pageSize at hHigh
    omega
  refine ⟨ranges, ?_⟩
  have hMapped : Loading u p low high (process.setRanges ranges) c := Keeps.of_returns hAllocated hMap
  exact Keeps.of_returns hMapped hBytes

/-- Without a master copy in the process there is no thread local storage to prepare. -/
theorem prepareThreadLocalStorage (h : Loading u p low high process a)
    (hNone : process.tlsMasterInProcLocation = 0)
    (hRun : (Memory.prepareThreadLocalStorage p).run a = .ok () t) : t = a := by
  have hUnset : (a.processes p).tlsMasterInProcLocation = 0 := by
    have hField := congrArg Process.tlsMasterInProcLocation h.fields
    exact hField.trans hNone
  obtain ⟨_, _, hGet, hRun⟩ := bind_returns_iff.mp hRun
  cases hGet
  rw [if_pos hUnset] at hRun
  cases hRun
  rfl

theorem loadImage (h : Loading u p (imageStartOf segments) (imageEndOf segments) process a)
    (hMain : process.virtualRanges = mainRanges) (hNone : process.tlsMasterInProcLocation = 0)
    (hFits : ImageFits segments) {tls : Option Segment} (hTls : TlsFits tls)
    (hRun : (Memory.loadImage p segments tls).run a = .ok () t) :
    ∃ ranges, Loading u p (imageStartOf segments) (imageEndOf segments)
      ((process.setImage (imageStartOf segments) (imageEndOf segments)).setRanges ranges) t := by
  obtain ⟨_, b, hSegments, hRun⟩ := bind_returns_iff.mp hRun
  have hLoaded := h.loadLoadSegment hFits hSegments
  cases tls with
  | none =>
    obtain rfl := hLoaded.prepareThreadLocalStorage hNone hRun
    refine ⟨mainRanges, ?_⟩
    rw [← hMain]
    exact hLoaded
  | some segment =>
    obtain ⟨_, c, hCopy, hRun⟩ := bind_returns_iff.mp hRun
    obtain ⟨ranges, hCopied⟩ := hLoaded.loadTlsMasterCopy hMain (hTls segment rfl) hCopy
    obtain rfl := hCopied.prepareThreadLocalStorage hNone hRun
    exact ⟨ranges, hCopied⟩

end Loading

end Kernel.Memory
