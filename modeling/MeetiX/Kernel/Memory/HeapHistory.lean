import MeetiX.Kernel.Memory.UserHeap

/-! Sequences of `sbrk` calls of one process. As long as none asks for a break in front of the
heap, the image is safe and the heap has exactly the pages that it needs. -/
namespace Kernel.Memory

open Base

structure SbrkStep (p : Nat) (s : Memory) (call : Int × SbrkResult) (t : Memory) : Prop where
  returns : (sbrk p call.1).run s = .ok call.2 t
  notBelow : NotBelow s p call.1

/-- The heap between two calls, and the pages in front of it: what they are mapped to is in
use, and the heap does not use it as well. -/
structure HeapSafe (s : Memory) (p : Nat) : Prop where
  layout : Layout s
  heap : (s.processes p).heapBreak ≠ 0 → (s.processes p).HeapOk ∧
    (s.processes p).heapStart = (s.processes p).imageEnd
  pages : ∀ page, (s.processes p).imageEnd ≤ page * pageSize →
    page * pageSize < (s.processes p).imageEnd + (s.processes p).heapCount * pageSize →
    (s.entry p page).isSome = true
  taken : ∀ page e, page * pageSize < (s.processes p).imageEnd → s.entry p page = some e →
    s.isFree e.frame = false
  apart : ∀ page e other e', page * pageSize < (s.processes p).imageEnd →
    InArea (s.processes p).imageEnd other → s.entry p page = some e → s.entry p other = some e' →
    e'.frame ≠ e.frame

/-- The same in the middle of a call, compared with the state at the start. -/
structure ImageGuarded (start : Memory) (p base : Nat) (a : Memory) (n : Nat) : Prop where
  layout : Layout a
  pages : ∀ page, base ≤ page * pageSize → page * pageSize < base + n * pageSize →
    (a.entry p page).isSome = true
  same : ∀ page, page * pageSize < base → a.entry p page = start.entry p page
  taken : ∀ page e, page * pageSize < base → a.entry p page = some e → a.isFree e.frame = false
  apart : ∀ page e other e', page * pageSize < base → InArea base other →
    a.entry p page = some e → a.entry p other = some e' → e'.frame ≠ e.frame

section Image

variable {start s t a b : Memory} {p base n page frame : Nat}

theorem ImageGuarded.add (h : ImageGuarded start p base a n)
    (hPage : page * pageSize = base + n * pageSize) (hNew : NewPage a b p page frame true) :
    ImageGuarded start p base b (n + 1) := by
  have hBelow : ∀ g, g * pageSize < base → b.entry p g = a.entry p g := by
    intro g hg
    rw [hNew.entry_own, if_neg]
    rintro ⟨rfl, -⟩
    omega
  have hTaken : ∀ g e, g * pageSize < base → b.entry p g = some e → a.isFree e.frame = false := by
    intro g e hg hEntry
    exact h.taken g e hg (hBelow g hg ▸ hEntry)
  refine ⟨hNew.layout, ?_, fun g hg => (hBelow g hg).trans (h.same g hg),
    fun g e hg hEntry => hNew.used (hTaken g e hg hEntry), ?_⟩
  · intro g hLow hHigh
    rw [hNew.entry_own]
    split
    · rfl
    · rename_i hOld
      rcases (page_lt_succ hPage).mp hHigh with rfl | hLess
      · exact Option.isSome_iff_ne_none.mpr fun hNone => hOld ⟨rfl, hNone⟩
      · exact h.pages g hLow hLess
  · intro g e other e' hg hOther hEntry hEntry'
    rw [hNew.entry_own] at hEntry'
    split at hEntry'
    · -- the new page was free, and the page of the image was not
      cases hEntry'
      rintro rfl
      have hFresh := hNew.fresh
      rw [hTaken g e hg hEntry] at hFresh
      cases hFresh
    · exact h.apart g e other e' hg hOther (hBelow g hg ▸ hEntry) hEntry'

/-- A page of the heap that goes is not one of the image. -/
theorem ImageGuarded.remove (h : ImageGuarded start p base a (n + 1))
    (hPage : page * pageSize = base + n * pageSize) (hArea : InArea base page)
    (hOld : ReleasedPage a b p page ((a.entry p page).elim 0 PageEntry.frame)) :
    ImageGuarded start p base b n := by
  have hBelow : ∀ g, g * pageSize < base → b.entry p g = a.entry p g := by
    intro g hg
    rw [hOld.entry_own, if_neg]
    rintro rfl
    omega
  have hMapped := h.pages page hArea.1 ((page_lt_succ hPage).mpr (.inl rfl))
  obtain ⟨e', hEntry'⟩ := Option.isSome_iff_exists.mp hMapped
  refine ⟨hOld.layout, ?_, ?_, ?_, ?_⟩
  · intro g hLow hHigh
    rw [hOld.entry_own, if_neg]
    · exact h.pages g hLow ((page_lt_succ hPage).mpr (.inr hHigh))
    · rintro rfl
      omega
  · exact fun g hg => (hBelow g hg).trans (h.same g hg)
  · intro g e hg hEntry
    rw [hBelow g hg] at hEntry
    rw [← Bool.not_eq_true]
    intro hFree
    rcases hOld.free_of e.frame hFree with hBefore | hSame
    · rw [h.taken g e hg hEntry] at hBefore
      cases hBefore
    · rw [hEntry'] at hSame
      exact h.apart g e page e' hg hArea hEntry hEntry' hSame.symm
  · intro g e other e'' hg hOther hEntry hEntry''
    rw [hBelow g hg] at hEntry
    rw [hOld.entry_own] at hEntry''
    split at hEntry''
    · cases hEntry''
    · exact h.apart g e other e'' hg hOther hEntry hEntry''

theorem ImageGuarded.rule (start : Memory) (p base first : Nat) :
    HeapRule p base first (ImageGuarded start p base) where
  layout _ _ h := h.layout
  mapped a n page h hPage hArea := h.pages page hArea.1 ((page_lt_succ hPage).mpr (.inl rfl))
  add _ _ _ _ _ h _ hPage _ hNew _ := h.add hPage hNew
  remove _ _ _ _ h hPage hArea hOld _ := h.remove hPage hArea hOld
  setBreak a n brk h := by
    have hSame := entry_modifyFields a p (sameSpace_setBreak brk)
    refine ⟨KeptByGrowth.fields a p _ (sameSpace_setBreak brk) h.layout, ?_, ?_, ?_, ?_⟩
    · simpa only [hSame] using h.pages
    · simpa only [hSame] using h.same
    · intro g e hg hEntry
      exact h.taken g e hg (hSame p g ▸ hEntry)
    · simpa only [hSame] using h.apart

theorem ImageGuarded.fewer (h : ImageGuarded start p base a n) {k : Nat} (hLess : k ≤ n) :
    ImageGuarded start p base a k := by
  refine ⟨h.layout, fun g hLow hHigh => h.pages g hLow ?_, h.same, h.taken, h.apart⟩
  have hMul := Nat.mul_le_mul_right pageSize hLess
  omega

structure ImageKept (start : Memory) (p : Nat) (s : Memory) : Prop where
  safe : HeapSafe s p
  imageEnd : (s.processes p).imageEnd = (start.processes p).imageEnd
  same : ∀ page, page * pageSize < (start.processes p).imageEnd → s.entry p page = start.entry p page

theorem SbrkStep.imageKept {call : Int × SbrkResult} (hStep : SbrkStep p s call t)
    (h : ImageKept start p s) : ImageKept start p t := by
  obtain ⟨hSafe, hImage, hSame⟩ := h
  have hCore : ImageGuarded start p (s.processes p).imageEnd s (s.processes p).heapCount :=
    ⟨hSafe.layout, hSafe.pages, by rwa [hImage], hSafe.taken, hSafe.apart⟩
  obtain ⟨hAfter, hOutcome⟩ := ((ImageGuarded.rule start p _ _).sbrk rfl rfl hCore hSafe.heap
    hStep.notBelow).of_returns hStep.returns
  have hEnd := hOutcome.outside.imageEnd_eq
  have hCount : (t.processes p).heapCount ≤ (t.processes p).heapPages := by
    unfold Process.heapCount
    split
    · exact Nat.zero_le _
    · exact le_refl _
  have hFewer := hAfter.fewer hCount
  rw [← hEnd] at hFewer
  refine ⟨⟨hFewer.layout, fun _ => ⟨hOutcome.heapOk, hOutcome.start⟩, hFewer.pages, hFewer.taken,
    hFewer.apart⟩, hEnd.trans hImage, ?_⟩
  have hBelow := hFewer.same
  rwa [hEnd, hImage] at hBelow

end Image

/-- A sequence of calls none of which asks for a break in front of the heap leaves the break
behind the start of the heap, and the pages in front of it as they were. -/
theorem sbrk_keeps_image {start s : Memory} {p : Nat} {calls : List (Int × SbrkResult)}
    (hStart : HeapSafe start p) (run : Run (SbrkStep p) start calls s) :
    ((s.processes p).heapBreak ≠ 0 → (s.processes p).heapStart = (start.processes p).imageEnd ∧
      (s.processes p).heapStart ≤ (s.processes p).heapBreak) ∧
    ∀ page, page * pageSize < (start.processes p).imageEnd →
      s.entry p page = start.entry p page ∧
        ∀ e, s.entry p page = some e → s.isFree e.frame = false := by
  have hKept : ImageKept start p s :=
    run.invariant ⟨hStart, rfl, fun _ _ => rfl⟩ fun _ _ _ h hStep => hStep.imageKept h
  constructor
  · intro hSet
    obtain ⟨hOk, hBase⟩ := hKept.safe.heap hSet
    exact ⟨hBase.trans hKept.imageEnd, (Nat.le_add_right ..).trans hOk.lower⟩
  · intro page hPage
    refine ⟨hKept.same page hPage, fun e hEntry => hKept.safe.taken page e ?_ hEntry⟩
    rw [hKept.imageEnd]
    exact hPage

/-- Among the pages that the heap may have, exactly the first ones are mapped, each to a
physical page of its own that is counted. Physical pages that are free are not counted. -/
structure HeapExact (p base : Nat) (a : Memory) (n : Nat) : Prop where
  layout : Layout a
  mapped : ∀ page, InArea base page →
    ((a.entry p page).isSome = true ↔ page * pageSize < base + n * pageSize)
  frames : ∀ page e, InArea base page → a.entry p page = some e →
    a.isFree e.frame = false ∧ 0 < a.count e.frame ∧ a.count e.frame < 32768
  own : ∀ page e other e', InArea base page → InArea base other → a.entry p page = some e →
    a.entry p other = some e' → e.frame = e'.frame → page = other
  fresh : ∀ f, a.isFree f = true → a.count f = 0

/-- What has become of the pages since the start of the call. -/
structure HeapEffect (s : Memory) (p base first : Nat) (a : Memory) (n : Nat) : Prop where
  kept : ∀ page e, InArea base page → page * pageSize < base + n * pageSize →
    s.entry p page = some e → a.entry p page = some e ∧ a.count e.frame = s.count e.frame
  added : ∀ page e, InArea base page → s.entry p page = none → a.entry p page = some e →
    s.isFree e.frame = true ∧ a.isFree e.frame = false ∧ a.count e.frame = 1
  removed : ∀ page e, InArea base page → base + n * pageSize ≤ page * pageSize →
    s.entry p page = some e →
    a.count e.frame = s.count e.frame - 1 ∧ (a.isFree e.frame = true ↔ a.count e.frame = 0)
  outside : ∀ page, ¬InArea base page → a.entry p page = s.entry p page
  free_of : first ≤ n → ∀ f, a.isFree f = true → s.isFree f = true

section Exact

variable {s t a b : Memory} {p base first n page frame : Nat}

theorem HeapExact.frame_ne (h : HeapExact p base a n) {g : Nat} {e : PageEntry} (hArea : InArea base g)
    (hEntry : a.entry p g = some e) (hFree : a.isFree frame = true) : e.frame ≠ frame := by
  rintro rfl
  rw [(h.frames g e hArea hEntry).1] at hFree
  cases hFree

theorem HeapExact.next_eq_none (h : HeapExact p base a n) (hArea : InArea base page)
    (hPage : page * pageSize = base + n * pageSize) : a.entry p page = none := by
  rw [← Option.not_isSome_iff_eq_none, h.mapped page hArea]
  omega

/-- The heap has one page more. -/
theorem HeapExact.add (h : HeapExact p base a n) (hPage : page * pageSize = base + n * pageSize)
    (hArea : InArea base page) (hNew : NewPage a b p page frame true) :
    HeapExact p base b (n + 1) := by
  have hNone := h.next_eq_none hArea hPage
  have hEntry : ∀ g, b.entry p g = if g = page then some ⟨frame, true⟩ else a.entry p g := by
    intro g
    rw [hNew.entry_own, hNone]
    simp
  have hCount : ∀ f, f ≠ frame → b.count f = a.count f := by
    intro f hf
    rw [hNew.count, if_neg fun hBoth => hf hBoth.2]
  have hOne : b.count frame = 1 := by
    rw [hNew.count, if_pos ⟨rfl, rfl⟩, h.fresh frame hNew.fresh]
    rfl
  refine ⟨hNew.layout, ?_, ?_, ?_, ?_⟩
  · intro g hg
    rw [hEntry, page_lt_succ hPage]
    by_cases hSame : g = page
    · simp [hSame]
    · rw [if_neg hSame, h.mapped g hg]
      exact ⟨.inr, fun hOr => hOr.resolve_left hSame⟩
  · intro g e hg hMapped
    rw [hEntry] at hMapped
    split at hMapped
    · cases hMapped
      rw [hOne]
      exact ⟨hNew.used_frame, by decide⟩
    · obtain ⟨hUsed, hPos, hSmall⟩ := h.frames g e hg hMapped
      rw [hCount _ (h.frame_ne hg hMapped hNew.fresh)]
      exact ⟨hNew.used hUsed, hPos, hSmall⟩
  · intro g e other e' hg hOther hMapped hMapped' hSame
    rw [hEntry] at hMapped hMapped'
    split at hMapped
    · cases hMapped
      split at hMapped'
      · rename_i hLeft hRight
        exact hLeft.trans hRight.symm
      · exact absurd hSame.symm (h.frame_ne hOther hMapped' hNew.fresh)
    · split at hMapped'
      · cases hMapped'
        exact absurd hSame (h.frame_ne hg hMapped hNew.fresh)
      · exact h.own g e other e' hg hOther hMapped hMapped' hSame
  · intro f hFree
    obtain ⟨hOld, hOther⟩ := hNew.taken f hFree
    rw [hCount f hOther, h.fresh f hOld]

/-- What a round of the second loop does to the last page of the heap. -/
structure Cut (a b : Memory) (p base page : Nat) (last : PageEntry) : Prop where
  entry : ∀ g, b.entry p g = if g = page then none else a.entry p g
  count_of_ne : ∀ f, f ≠ last.frame → b.count f = a.count f
  count : b.count last.frame = a.count last.frame - 1
  free_iff : ∀ f, b.isFree f = true ↔ a.isFree f = true ∨ f = last.frame ∧ b.count f = 0
  others : ∀ g e, InArea base g → g ≠ page → a.entry p g = some e → e.frame ≠ last.frame

section Cut

variable {g : Nat} {e last : PageEntry} (h : Cut a b p base page last)
include h

theorem Cut.still (hEntry : b.entry p g = some e) : g ≠ page ∧ a.entry p g = some e := by
  rw [h.entry] at hEntry
  split at hEntry
  · cases hEntry
  · rename_i hOther
    exact ⟨hOther, hEntry⟩

theorem Cut.isFree_of_ne {f : Nat} (hf : f ≠ last.frame) : b.isFree f = a.isFree f := by
  rw [Bool.eq_iff_iff, h.free_iff]
  exact ⟨fun hOr => hOr.resolve_right fun hBoth => hf hBoth.1, .inl⟩

end Cut

section

variable (h : HeapExact p base a (n + 1)) (hPage : page * pageSize = base + n * pageSize)
  (hArea : InArea base page)
  (hOld : ReleasedPage a b p page ((a.entry p page).elim 0 PageEntry.frame))

include h hPage hArea hOld

theorem HeapExact.cut : ∃ last, a.entry p page = some last ∧ Cut a b p base page last := by
  have hMapped := (h.mapped page hArea).mpr ((page_lt_succ hPage).mpr (.inl rfl))
  obtain ⟨last, hLast⟩ := Option.isSome_iff_exists.mp hMapped
  rw [hLast] at hOld
  change ReleasedPage a b p page last.frame at hOld
  obtain ⟨hUsed, hPos, hSmall⟩ := h.frames page last hArea hLast
  obtain ⟨hCount, hFree⟩ := hOld.count (by omega)
  rw [bmod_of_small (by omega) (by omega)] at hCount
  refine ⟨last, hLast, hOld.entry_own, hOld.count_of_ne, hCount, ?_, ?_⟩
  · intro f
    by_cases hf : f = last.frame
    · subst hf
      rw [hFree]
      simp
    · refine ⟨fun hNow => ?_, fun hBefore => ?_⟩
      · exact .inl ((hOld.free_of f hNow).resolve_right hf)
      · exact hOld.free_mono f (hBefore.resolve_right fun hBoth => hf hBoth.1)
  · intro g e hg hOther hEntry hSame
    exact hOther (h.own g e page last hg hArea hEntry hLast hSame)

theorem HeapExact.remove : HeapExact p base b n := by
  obtain ⟨last, hLast, hCut⟩ := h.cut hPage hArea hOld
  refine ⟨hOld.layout, ?_, ?_, ?_, ?_⟩
  · intro g hg
    rw [hCut.entry]
    by_cases hSame : g = page
    · subst hSame
      simp only [if_true, Option.isSome_none, Bool.false_eq_true, false_iff]
      omega
    · rw [if_neg hSame, h.mapped g hg, page_lt_succ hPage]
      exact ⟨fun hOr => hOr.resolve_left hSame, .inr⟩
  · intro g e hg hEntry
    obtain ⟨hOther, hEntry⟩ := hCut.still hEntry
    have hNe := hCut.others g e hg hOther hEntry
    rw [hCut.count_of_ne _ hNe, hCut.isFree_of_ne hNe]
    exact h.frames g e hg hEntry
  · intro g e other e' hg hOther hEntry hEntry' hSame
    exact h.own g e other e' hg hOther (hCut.still hEntry).2 (hCut.still hEntry').2 hSame
  · intro f hFree
    rcases (hCut.free_iff f).mp hFree with hBefore | ⟨-, hZero⟩
    · by_cases hf : f = last.frame
      · subst hf
        rw [(h.frames page last hArea hLast).1] at hBefore
        cases hBefore
      · rw [hCut.count_of_ne f hf, h.fresh f hBefore]
    · exact hZero

end

/-- The effect of a call after one more page has been mapped. -/
theorem HeapEffect.add (h : HeapEffect s p base first a n) (hExact : HeapExact p base a n)
    (hStart : HeapExact p base s first) (hFirst : first ≤ n)
    (hPage : page * pageSize = base + n * pageSize) (hArea : InArea base page)
    (hNew : NewPage a b p page frame true) : HeapEffect s p base first b (n + 1) := by
  have hNone := hExact.next_eq_none hArea hPage
  have hMul : first * pageSize ≤ n * pageSize := Nat.mul_le_mul_right pageSize hFirst
  have hBefore : ∀ g e, InArea base g → s.entry p g = some e →
      g * pageSize < base + n * pageSize := by
    intro g e hg hEntry
    have hLess := (hStart.mapped g hg).mp (by rw [hEntry]; rfl)
    omega
  have hCount : ∀ g e, InArea base g → a.entry p g = some e → b.count e.frame = a.count e.frame := by
    intro g e hg hEntry
    rw [hNew.count, if_neg fun hBoth => hExact.frame_ne hg hEntry hNew.fresh hBoth.2]
  refine ⟨?_, ?_, ?_, ?_, ?_⟩
  · intro g e hg _ hEntry
    obtain ⟨hKept, hSame⟩ := h.kept g e hg (hBefore g e hg hEntry) hEntry
    rw [hCount g e hg hKept]
    refine ⟨?_, hSame⟩
    rw [hNew.entry_own, if_neg, hKept]
    rintro ⟨rfl, -⟩
    rw [hNone] at hKept
    cases hKept
  · intro g e hg hFrom hEntry
    rw [hNew.entry_own] at hEntry
    split at hEntry
    · cases hEntry
      refine ⟨h.free_of hFirst frame hNew.fresh, hNew.used_frame, ?_⟩
      rw [hNew.count, if_pos ⟨rfl, rfl⟩, hExact.fresh frame hNew.fresh]
      rfl
    · obtain ⟨hFresh, hUsed, hOne⟩ := h.added g e hg hFrom hEntry
      exact ⟨hFresh, hNew.used hUsed, (hCount g e hg hEntry).trans hOne⟩
  · intro g e hg hBehind hEntry
    have hLess := hBefore g e hg hEntry
    rw [Nat.succ_mul] at hBehind
    omega
  · intro g hg
    rw [hNew.entry_own, if_neg, h.outside g hg]
    rintro ⟨rfl, -⟩
    exact hg hArea
  · exact fun _ f hFree => h.free_of hFirst f (hNew.taken f hFree).1

/-- The effect of a call after the last page of the heap has been released. -/
theorem HeapEffect.remove (h : HeapEffect s p base first a (n + 1))
    (hExact : HeapExact p base a (n + 1)) (hStart : HeapExact p base s first)
    (hPage : page * pageSize = base + n * pageSize) (hArea : InArea base page)
    (hOld : ReleasedPage a b p page ((a.entry p page).elim 0 PageEntry.frame)) :
    HeapEffect s p base first b n := by
  obtain ⟨last, hLast, hCut⟩ := hExact.cut hPage hArea hOld
  have hUsed := (hExact.frames page last hArea hLast).1
  -- where the last page comes from
  have hOrigin : ∀ e, s.entry p page = some e → e = last ∧ a.count e.frame = s.count e.frame := by
    intro e hEntry
    obtain ⟨hKept, hSame⟩ := h.kept page e hArea ((page_lt_succ hPage).mpr (.inl rfl)) hEntry
    rw [hLast] at hKept
    cases hKept
    exact ⟨rfl, hSame⟩
  refine ⟨?_, ?_, ?_, ?_, ?_⟩
  · intro g e hg hLess hEntry
    obtain ⟨hKept, hSame⟩ := h.kept g e hg ((page_lt_succ hPage).mpr (.inr hLess)) hEntry
    have hOther : g ≠ page := by
      rintro rfl
      omega
    rw [hCut.entry, if_neg hOther, hCut.count_of_ne _ (hCut.others g e hg hOther hKept)]
    exact ⟨hKept, hSame⟩
  · intro g e hg hFrom hEntry
    obtain ⟨hOther, hEntry⟩ := hCut.still hEntry
    have hNe := hCut.others g e hg hOther hEntry
    rw [hCut.isFree_of_ne hNe, hCut.count_of_ne _ hNe]
    exact h.added g e hg hFrom hEntry
  · intro g e hg hBehind hEntry
    by_cases hSame : g = page
    · subst hSame
      obtain ⟨rfl, hBefore⟩ := hOrigin e hEntry
      rw [hCut.free_iff, hCut.count, hBefore, hUsed]
      simp
    · have hFar : base + (n + 1) * pageSize ≤ g * pageSize := by
        by_contra hNot
        rcases (page_lt_succ (g := g) hPage).mp (by omega) with hEq | hLess
        · exact hSame hEq
        · omega
      obtain ⟨hLess, hIff⟩ := h.removed g e hg hFar hEntry
      have hNe : e.frame ≠ last.frame := by
        -- the last page was in the heap of the start, as the page behind it was
        have hInside := (hStart.mapped g hg).mp (by rw [hEntry]; rfl)
        obtain ⟨e', hEntry'⟩ := Option.isSome_iff_exists.mp
          ((hStart.mapped page hArea).mpr (by omega))
        obtain ⟨rfl, -⟩ := hOrigin e' hEntry'
        exact fun hFrame => hSame (hStart.own g e page e' hg hArea hEntry hEntry' hFrame)
      rw [hCut.isFree_of_ne hNe, hCut.count_of_ne _ hNe]
      exact ⟨hLess, hIff⟩
  · intro g hg
    rw [hCut.entry, if_neg, h.outside g hg]
    rintro rfl
    exact hg hArea
  · intro hFirst f hNow
    rcases (hCut.free_iff f).mp hNow with hBefore | ⟨rfl, -⟩
    · exact h.free_of (by omega) f hBefore
    · refine (h.added page last hArea ?_ hLast).1
      rw [← Option.not_isSome_iff_eq_none, hStart.mapped page hArea]
      have hMul : first * pageSize ≤ n * pageSize := Nat.mul_le_mul_right pageSize hFirst
      omega

theorem HeapEffect.rule (hStart : HeapExact p base s first) : HeapRule p base first
    (fun a n => HeapExact p base a n ∧ HeapEffect s p base first a n) where
  layout _ _ h := h.1.layout
  mapped a n page h hPage hArea := (h.1.mapped page hArea).mpr ((page_lt_succ hPage).mpr (.inl rfl))
  add _ _ _ _ _ h hFirst hPage hArea hNew _ :=
    ⟨h.1.add hPage hArea hNew, h.2.add h.1 hStart hFirst hPage hArea hNew⟩
  remove _ _ _ _ h hPage hArea hOld _ :=
    ⟨h.1.remove hPage hArea hOld, h.2.remove h.1 hStart hPage hArea hOld⟩
  setBreak a n brk h := by
    have hSame := entry_modifyFields a p (sameSpace_setBreak brk)
    constructor
    · refine ⟨KeptByGrowth.fields a p _ (sameSpace_setBreak brk) h.1.layout, ?_, ?_, ?_, h.1.fresh⟩
      · simpa only [hSame] using h.1.mapped
      · intro g e hg hEntry
        exact h.1.frames g e hg (hSame p g ▸ hEntry)
      · simpa only [hSame] using h.1.own
    · refine ⟨?_, ?_, h.2.removed, ?_, h.2.free_of⟩
      · intro g e hg hLess hEntry
        rw [hSame]
        exact h.2.kept g e hg hLess hEntry
      · intro g e hg hNone hEntry
        exact h.2.added g e hg hNone (hSame p g ▸ hEntry)
      · simpa only [hSame] using h.2.outside

/-- A process between two calls: its image ends at a page of the user, and the heap behind it
is either not set up or in order. -/
structure HeapReady (s : Memory) (p : Nat) : Prop where
  image_pos : 0 < (s.processes p).imageEnd
  aligned : (s.processes p).imageEnd % pageSize = 0
  user : (s.processes p).imageEnd < kernelAreaStart
  heap : (s.processes p).heapBreak ≠ 0 → (s.processes p).HeapOk ∧
    (s.processes p).heapStart = (s.processes p).imageEnd
  exact : HeapExact p (s.processes p).imageEnd s (s.processes p).heapCount

structure SbrkEffect (s t : Memory) (p : Nat) (amount : Int) (result : SbrkResult) : Prop where
  outcome : SbrkOutcome s t p amount result
  exact : HeapExact p (t.processes p).heapStart t (t.processes p).heapPages
  effect : HeapEffect s p (t.processes p).heapStart (s.processes p).heapCount t
    (t.processes p).heapPages

theorem HeapReady.sbrk (h : HeapReady s p) {amount : Int} (hNotBelow : NotBelow s p amount) :
    Finishes (fun result t => SbrkEffect s t p amount result) Starved
      ((Memory.sbrk p amount).run s) := by
  have hCore : HeapEffect s p (s.processes p).imageEnd (s.processes p).heapCount s
      (s.processes p).heapCount := by
    refine ⟨fun page e _ _ hEntry => ⟨hEntry, rfl⟩, ?_, ?_, fun _ _ => rfl, fun _ _ hFree => hFree⟩
    · intro page e _ hNone hEntry
      rw [hNone] at hEntry
      cases hEntry
    · intro page e hArea hBehind hEntry
      have hLess := (h.exact.mapped page hArea).mp (by rw [hEntry]; rfl)
      omega
  refine ((HeapEffect.rule h.exact).sbrk rfl rfl ⟨h.exact, hCore⟩ h.heap hNotBelow).mono ?_
    fun _ _ hStop => hStop h.aligned h.user
  rintro result t ⟨⟨hExact, hEffect⟩, hOutcome⟩
  rw [← hOutcome.outside.imageEnd_eq, ← hOutcome.start] at hExact hEffect
  exact ⟨hOutcome, hExact, hEffect⟩

theorem SbrkEffect.ready {amount : Int} {result : SbrkResult} (h : SbrkEffect s t p amount result)
    (hReady : HeapReady s p) : HeapReady t p := by
  have hEnd := h.outcome.outside.imageEnd_eq
  have hBreak : (t.processes p).heapBreak ≠ 0 := by
    have hLower := h.outcome.heapOk.lower
    have hPos := hReady.image_pos
    rw [h.outcome.start] at hLower
    omega
  have hCount : (t.processes p).heapCount = (t.processes p).heapPages := if_neg hBreak
  refine ⟨?_, ?_, ?_, fun _ => ⟨h.outcome.heapOk, h.outcome.start⟩, ?_⟩
  · rw [hEnd]
    exact hReady.image_pos
  · rw [hEnd]
    exact hReady.aligned
  · rw [hEnd]
    exact hReady.user
  · rw [hCount, ← h.outcome.start]
    exact h.exact

theorem SbrkStep.ready {call : Int × SbrkResult} (hStep : SbrkStep p s call t) (h : HeapReady s p) :
    HeapReady t p :=
  ((h.sbrk hStep.notBelow).of_returns hStep.returns).ready h

end Exact

/-- After any calls none of which asks for a break in front of the heap, a further such call moves
the break, maps and releases pages exactly as the break requires, and returns the previous break.
It only stops when there are no physical pages left. -/
theorem sbrk_keeps_heap {start s : Memory} {p : Nat} {calls : List (Int × SbrkResult)}
    (hStart : HeapReady start p) (run : Run (SbrkStep p) start calls s) (amount : Int)
    (hNotBelow : NotBelow s p amount) :
    (∀ reason t, (sbrk p amount).run s = .error reason t → reason = .panic ∧ OutOfMemory t) ∧
    ∀ result t, (sbrk p amount).run s = .ok result t → SbrkEffect s t p amount result := by
  have hReady : HeapReady s p := run.invariant hStart fun _ _ _ h hStep => hStep.ready h
  have hFinishes := hReady.sbrk hNotBelow
  exact ⟨fun _ _ => hFinishes.of_stops, fun _ _ => hFinishes.of_returns⟩

/-- A process with an image of one page and no heap yet. -/
def loadedProcess : Process :=
  { Process.new 2 with
    tables := fun table => table = 0x20
    pages := fun page => if page = 0x8000 then some ⟨300, true⟩ else none
    imageStart := 0x8000000, imageEnd := 0x8001000 }

def loadedMachine : Memory :=
  { smallMachine with
    isFree := fun frame => 301 ≤ frame && frame < 400
    processes := fun _ => loadedProcess, processCount := 1 }

theorem entry_loadedMachine (page : Nat) : loadedMachine.entry 0 page =
    if page < lowerMemoryPages then some ⟨page, true⟩
    else if page = 0x8000 then some ⟨300, true⟩ else none := by
  unfold entry loadedMachine loadedProcess smallMachine boot lowerMemoryPages tableEntries
  by_cases hLow : page < 0x100
  · simp [hLow, show page < 1024 by omega]
  · by_cases hTable : page < 1024
    · simp [hLow, show page ≠ 0x8000 by omega]
    · simp [hLow, hTable]

theorem layout_loadedMachine : Layout loadedMachine where
  ranges _ := rangesOk_new
  tables p page hTable := by
    change loadedMachine.entry 0 page = none
    rw [entry_loadedMachine]
    unfold hasTable loadedMachine loadedProcess at hTable
    simp only [Bool.or_eq_false_iff, decide_eq_false_iff_not] at hTable
    unfold tableEntries at hTable
    rw [if_neg (by unfold lowerMemoryPages; omega), if_neg (by omega)]

theorem loadedMachine_taken {page : Nat} {e : PageEntry} (h : loadedMachine.entry 0 page = some e) :
    loadedMachine.isFree e.frame = false := by
  rw [entry_loadedMachine] at h
  unfold lowerMemoryPages at h
  split at h
  · cases h
    simp [loadedMachine]
    omega
  · split at h
    · cases h
      rfl
    · cases h

theorem loadedMachine_area {page : Nat} (h : InArea 0x8001000 page) :
    loadedMachine.entry 0 page = none := by
  have hLow := h.1
  unfold pageSize at hLow
  rw [entry_loadedMachine, if_neg (by unfold lowerMemoryPages; omega), if_neg (by omega)]

/-- The process has got a heap of two pages. -/
abbrev grownMachine : Memory := finalState ((sbrk 0 0x2000).run loadedMachine)

theorem sbrk_keeps_image_loaded : grownMachine.entry 0 0x8000 = some ⟨300, true⟩ := by
  have hSafe : HeapSafe loadedMachine 0 := by
    refine ⟨layout_loadedMachine, fun hSet => absurd rfl hSet, ?_, ?_, ?_⟩
    · intro page hLow hHigh
      exact absurd hHigh (Nat.not_lt.mpr hLow)
    · exact fun page e _ hEntry => loadedMachine_taken hEntry
    · intro page e other e' _ hOther _ hEntry
      rw [loadedMachine_area hOther] at hEntry
      cases hEntry
  have hStep : SbrkStep 0 loadedMachine (0x2000, ⟨0x8001000, true⟩) grownMachine :=
    ⟨eq_ok_of_returned (by decide +kernel), fun _ => by decide +kernel⟩
  have hKept := (sbrk_keeps_image hSafe (.single hStep)).2 0x8000 (by decide)
  rw [hKept.1]
  rfl

/-- The process gets a heap of two pages and gives one of them back. -/
theorem sbrk_keeps_heap_loaded : ∃ t, (sbrk 0 (-0x1800)).run grownMachine =
        .ok ⟨0x8003000, true⟩ t ∧
      SbrkEffect grownMachine t 0 (-0x1800)
        ⟨0x8003000, true⟩ := by
  have hExact : HeapExact 0 0x8001000 loadedMachine 0 := by
    refine ⟨layout_loadedMachine, ?_, ?_, ?_, fun f _ => rfl⟩
    · intro page hArea
      rw [loadedMachine_area hArea]
      exact ⟨fun h => (Bool.false_ne_true h).elim, fun h => absurd hArea.1 (Nat.not_le.mpr h)⟩
    · intro page e hArea hEntry
      rw [loadedMachine_area hArea] at hEntry
      cases hEntry
    · intro page e other e' hArea _ hEntry
      rw [loadedMachine_area hArea] at hEntry
      cases hEntry
  have hReady : HeapReady loadedMachine 0 :=
    ⟨by decide, by decide, by decide, fun hSet => absurd rfl hSet, hExact⟩
  have hStep : SbrkStep 0 loadedMachine (0x2000, ⟨0x8001000, true⟩) grownMachine :=
    ⟨eq_ok_of_returned (by decide +kernel), fun _ => by decide +kernel⟩
  have hCall : (sbrk 0 (-0x1800)).run grownMachine =
      .ok ⟨0x8003000, true⟩
        (finalState ((sbrk 0 (-0x1800)).run grownMachine)) :=
    eq_ok_of_returned (by decide +kernel)
  have hNotBelow : NotBelow grownMachine 0 (-0x1800) :=
    fun _ => by decide +kernel
  exact ⟨_, hCall, (sbrk_keeps_heap hReady (.single hStep) (-0x1800) hNotBelow).2 _ _ hCall⟩

/-- The end of the heap is moved in front of the image. Its page is unmapped and free. -/
theorem sbrk_removes_image : Run Step smallMachine [.spawn 2 smallImage none, .sbrk 0 (-0x2000)]
        (reached [.spawn 2 smallImage none, .sbrk 0 (-0x2000)]) ∧
      ((reached [.spawn 2 smallImage none, .sbrk 0 (-0x2000)]).processes 0).heapBreak <
        ((reached [.spawn 2 smallImage none, .sbrk 0 (-0x2000)]).processes 0).heapStart ∧
      (reached [.spawn 2 smallImage none]).entry 0 0x8000 = some ⟨260, true⟩ ∧
      (reached [.spawn 2 smallImage none, .sbrk 0 (-0x2000)]).entry 0 0x8000 = none ∧
      (reached [.spawn 2 smallImage none, .sbrk 0 (-0x2000)]).isFree 260 = true := by
  refine ⟨run_reached (by decide +kernel), ?_, ?_, ?_, ?_⟩
  all_goals decide +kernel

end Kernel.Memory
