import MeetiX.Kernel.Memory.UserPages

/-! The loops of `sbrk`, taken apart into rounds once: what a round keeps is kept by the call. The
heap lies behind the image, and its pages end at most at the limit of the break, apart from the
one page that the first call maps in any case. -/
namespace Kernel.Memory

open Base

/-- The pages of the heap, none before it is set up. -/
def Process.heapCount (q : Process) : Nat :=
  if q.heapBreak = 0 then 0 else q.heapPages

/-- The break that the next call starts from. -/
def Process.currentBreak (q : Process) : Nat :=
  if q.heapBreak = 0 then q.imageEnd else q.heapBreak

/-- The pages that a heap behind an image can ever have. -/
def InArea (base page : Nat) : Prop :=
  base ≤ page * pageSize ∧ (page * pageSize < userMaximumHeapBreak ∨ page * pageSize = base)

theorem page_lt_succ {base page n g : Nat} (hPage : page * pageSize = base + n * pageSize) :
    g * pageSize < base + (n + 1) * pageSize ↔ g = page ∨ g * pageSize < base + n * pageSize := by
  rw [Nat.succ_mul, ← Nat.add_assoc, ← hPage, ← Nat.succ_mul]
  constructor
  · intro h
    have hLess := Nat.lt_of_mul_lt_mul_right h
    rcases Nat.lt_succ_iff_lt_or_eq.mp hLess with hLt | rfl
    · exact .inr (Nat.mul_lt_mul_of_pos_right hLt (by decide))
    · exact .inl rfl
  · rintro (rfl | h)
    · exact Nat.mul_lt_mul_of_pos_right (Nat.lt_succ_self g) (by decide)
    · exact h.trans (Nat.mul_lt_mul_of_pos_right (Nat.lt_succ_self page) (by decide))

/-- The heap while its pages are added or removed. -/
structure Process.Span (q : Process) : Prop where
  aligned : q.heapStart % pageSize = 0
  user : q.heapStart < kernelAreaStart
  pages_pos : 0 < q.heapPages
  top_le : q.heapPages = 1 ∨ q.heapStart + q.heapPages * pageSize ≤ userMaximumHeapBreak

structure Process.HeapOk (q : Process) : Prop where
  aligned : q.heapStart % pageSize = 0
  user : q.heapStart < kernelAreaStart
  pages_pos : 0 < q.heapPages
  lower : q.heapStart + (q.heapPages - 1) * pageSize ≤ q.heapBreak
  upper : q.heapBreak ≤ q.heapStart + q.heapPages * pageSize
  limit : q.heapBreak < userMaximumHeapBreak ∨ q.heapBreak = q.heapStart

variable {q q' : Process}

theorem Process.HeapOk.span (h : q.HeapOk) : q.Span := by
  obtain ⟨hAligned, hUser, hPos, hLower, hUpper, hLimit⟩ := h
  refine ⟨hAligned, hUser, hPos, ?_⟩
  unfold pageSize userMaximumHeapBreak at *
  omega

namespace Process.Span

variable {q : Process}

theorem top_lt (h : q.Span) : q.heapStart + q.heapPages * pageSize ≤ kernelAreaStart := by
  obtain ⟨hAligned, hUser, hPos, hTop⟩ := h
  unfold kernelAreaStart userMaximumHeapBreak pageSize at *
  omega

theorem heapTop_eq (h : q.Span) : q.heapTop = q.heapStart + q.heapPages * pageSize := by
  have hLess := h.top_lt
  have hWord : kernelAreaStart < wordSize := by decide
  unfold Process.heapTop
  rw [wrap32_of_lt (by omega : q.heapPages * pageSize < wordSize), wrap32_of_lt (by omega)]

theorem heapTop_aligned (h : q.Span) : q.heapTop % pageSize = 0 := by
  rw [h.heapTop_eq, Nat.add_mul_mod_self_right]
  exact h.aligned

theorem pages_lt (h : q.Span) : q.heapPages + 1 < wordSize := by
  have hLess := h.top_lt
  unfold kernelAreaStart pageSize at hLess
  unfold wordSize
  omega

theorem below_eq (h : q.Span) :
    sub32 q.heapTop pageSize = q.heapStart + (q.heapPages - 1) * pageSize := by
  have hLess := h.top_lt
  have hPos := h.pages_pos
  have hWord : kernelAreaStart < wordSize := by decide
  rw [h.heapTop_eq, sub32_of_le]
  · rw [Nat.sub_mul, Nat.one_mul, Nat.add_sub_assoc]
    exact Nat.le_mul_of_pos_left pageSize hPos
  · exact (Nat.le_mul_of_pos_left pageSize hPos).trans (Nat.le_add_left ..)
  · omega

end Process.Span

def growHeap (q : Process) : Process :=
  { q with heapPages := wrap32 (q.heapPages + 1) }

def cutHeap (q : Process) : Process :=
  { q with heapPages := sub32 q.heapPages 1 }

def setupHeap (heapStart : Nat) (q : Process) : Process :=
  { q with heapBreak := heapStart, heapStart := heapStart, heapPages := 1 }

def setBreak (brk : Nat) (q : Process) : Process :=
  { q with heapBreak := brk }

theorem sameSpace_growHeap (q : Process) : SameSpace q (growHeap q) := by
  exact ⟨rfl, rfl, rfl⟩

theorem sameSpace_cutHeap (q : Process) : SameSpace q (cutHeap q) := by
  unfold cutHeap
  exact ⟨rfl, rfl, rfl⟩

theorem heapStart_cutHeap (q : Process) : (cutHeap q).heapStart = q.heapStart := by
  unfold cutHeap
  rfl

theorem heapPages_cutHeap (q : Process) : (cutHeap q).heapPages = sub32 q.heapPages 1 := by
  rfl

theorem sameSpace_setupHeap (heapStart : Nat) (q : Process) : SameSpace q (setupHeap heapStart q) :=
  ⟨rfl, rfl, rfl⟩

theorem sameSpace_setBreak (brk : Nat) (q : Process) : SameSpace q (setBreak brk q) :=
  ⟨rfl, rfl, rfl⟩

/-- The page tables and the physical pages may be different, and so are the fields of one
process. -/
structure SameBut (p : Nat) (change : Process → Process) (s t : Memory) : Prop where
  own : (t.processes p).fields = (change (s.processes p)).fields
  others : ∀ q, q ≠ p → (t.processes q).fields = (s.processes q).fields
  processCount : t.processCount = s.processCount
  threads : t.threads = s.threads
  contents : t.contents = s.contents

theorem SameRest.modify {s m : Memory} (h : SameRest s m) (p : Nat) {change : Process → Process}
    (hChange : ∀ q, (change q).fields = change q.fields) :
    SameBut p change s (m.modifyProcess p change) := by
  refine ⟨?_, fun q hq => ?_, h.processCount, h.threads, h.contents⟩
  · rw [modifyProcess_processes, if_pos rfl, hChange, h.fields, ← hChange]
  · rw [modifyProcess_processes, if_neg hq, h.fields]

theorem Process.heapStart_of_fields (h : q'.fields = q.fields) : q'.heapStart = q.heapStart := by
  have hField : q'.fields.heapStart = q.fields.heapStart := by rw [h]
  exact hField

theorem Process.heapPages_of_fields (h : q'.fields = q.fields) : q'.heapPages = q.heapPages := by
  have hField : q'.fields.heapPages = q.fields.heapPages := by rw [h]
  exact hField

/-- The part of the call behind the test of the limit. -/
def moveBreak (p brkOld brkNew : Nat) : Action SbrkResult := do
  expandHeap p brkNew (frameCount + 1)
  shrinkHeap p brkNew (frameCount + 1)
  modify (·.modifyProcess p (setBreak brkNew))
  return ⟨brkOld, true⟩

/-- The fields of a process other than its page tables and its heap. -/
def Process.unheaped (q : Process) : Process :=
  { q.fields with heapStart := 0, heapBreak := 0, heapPages := 0 }

/-- Apart from page tables, physical pages and the heap of one process everything is the
same. -/
structure OutsideHeap (p : Nat) (s t : Memory) : Prop where
  own : (t.processes p).unheaped = (s.processes p).unheaped
  others : ∀ q, q ≠ p → (t.processes q).fields = (s.processes q).fields
  processCount : t.processCount = s.processCount
  threads : t.threads = s.threads
  contents : t.contents = s.contents

namespace OutsideHeap

variable {p : Nat} {s t u : Memory}

theorem refl (p : Nat) (s : Memory) : OutsideHeap p s s :=
  ⟨rfl, fun _ _ => rfl, rfl, rfl, rfl⟩

theorem trans (h : OutsideHeap p s t) (h' : OutsideHeap p t u) : OutsideHeap p s u :=
  ⟨h'.own.trans h.own, fun q hq => (h'.others q hq).trans (h.others q hq),
    h'.processCount.trans h.processCount, h'.threads.trans h.threads, h'.contents.trans h.contents⟩

theorem of_sameBut {change : Process → Process} (h : SameBut p change s t)
    (hChange : ∀ q, (change q).unheaped = q.unheaped) : OutsideHeap p s t := by
  refine ⟨?_, h.others, h.processCount, h.threads, h.contents⟩
  rw [← hChange (s.processes p)]
  unfold Process.unheaped
  rw [h.own]

theorem imageEnd_eq (h : OutsideHeap p s t) : (t.processes p).imageEnd = (s.processes p).imageEnd := by
  have hField : (t.processes p).unheaped.imageEnd = (s.processes p).unheaped.imageEnd := by rw [h.own]
  exact hField

theorem imageStart_eq (h : OutsideHeap p s t) :
    (t.processes p).imageStart = (s.processes p).imageStart := by
  have hField : (t.processes p).unheaped.imageStart = (s.processes p).unheaped.imageStart := by
    rw [h.own]
  exact hField

end OutsideHeap

theorem unheaped_growHeap (q : Process) : (growHeap q).unheaped = q.unheaped := by
  rfl

theorem unheaped_cutHeap (q : Process) : (cutHeap q).unheaped = q.unheaped := by
  unfold cutHeap Process.unheaped Process.fields
  rfl

theorem unheaped_setupHeap (heapStart : Nat) (q : Process) :
    (setupHeap heapStart q).unheaped = q.unheaped := by
  rfl

def requestedBreak (s : Memory) (p : Nat) (amount : Int) : Nat :=
  offset32 (s.processes p).currentBreak amount

/-- The call does not ask for a break in front of the heap, unless it fails. -/
def NotBelow (s : Memory) (p : Nat) (amount : Int) : Prop :=
  requestedBreak s p amount < userMaximumHeapBreak →
    (s.processes p).imageEnd ≤ requestedBreak s p amount

/-- A property of the memory with so many pages of the heap, and what has to be shown for it
to be kept by the calls. Pages are only added while there are no fewer than at first. -/
structure HeapRule (p base first : Nat) (Core : Memory → Nat → Prop) : Prop where
  layout : ∀ a n, Core a n → Layout a
  mapped : ∀ a n page, Core a (n + 1) → page * pageSize = base + n * pageSize → InArea base page →
    (a.entry p page).isSome = true
  add : ∀ a b n page frame, Core a n → first ≤ n → page * pageSize = base + n * pageSize →
    InArea base page → NewPage a b p page frame true → OutsideHeap p a b → Core b (n + 1)
  remove : ∀ a b n page, Core a (n + 1) → page * pageSize = base + n * pageSize → InArea base page →
    ReleasedPage a b p page ((a.entry p page).elim 0 PageEntry.frame) → OutsideHeap p a b → Core b n
  setBreak : ∀ a n brk, Core a n → Core (a.modifyProcess p (setBreak brk)) n

/-- Where a call stands: the heap of the process has so many pages. -/
structure AtPages (s a : Memory) (p base n : Nat) : Prop where
  start : (a.processes p).heapStart = base
  pages : (a.processes p).heapPages = n
  span : (a.processes p).Span
  outside : OutsideHeap p s a

namespace AtPages

variable {s a b : Memory} {p base n brkNew : Nat}

theorem exists_eq_succ (h : AtPages s a p base n) : ∃ k, n = k + 1 := by
  apply Nat.exists_eq_succ_of_ne_zero
  have hPos := h.span.pages_pos
  rw [h.pages] at hPos
  omega

theorem heapTop_eq (h : AtPages s a p base n) : (a.processes p).heapTop = base + n * pageSize := by
  rw [h.span.heapTop_eq, h.start, h.pages]

theorem page_mul (h : AtPages s a p base n) :
    (a.processes p).heapTop / pageSize * pageSize = base + n * pageSize := by
  rw [Nat.div_mul_cancel (Nat.dvd_of_mod_eq_zero h.span.heapTop_aligned), h.heapTop_eq]

theorem below_eq (h : AtPages s a p base (n + 1)) :
    sub32 (a.processes p).heapTop pageSize = base + n * pageSize := by
  rw [h.span.below_eq, h.start, h.pages, Nat.add_sub_cancel]

theorem below_mul (h : AtPages s a p base (n + 1)) :
    sub32 (a.processes p).heapTop pageSize / pageSize * pageSize = base + n * pageSize := by
  have hAligned := h.span.aligned
  rw [h.start] at hAligned
  rw [h.below_eq]
  apply Nat.div_mul_cancel
  apply Nat.dvd_of_mod_eq_zero
  rw [Nat.add_mul_mod_self_right]
  exact hAligned

theorem below_inArea (h : AtPages s a p base (n + 1)) :
    InArea base (sub32 (a.processes p).heapTop pageSize / pageSize) := by
  have hTop := h.span.top_le
  rw [h.start, h.pages] at hTop
  unfold InArea
  rw [h.below_mul]
  unfold pageSize at *
  omega

theorem grow (h : AtPages s a p base n) (hSame : SameBut p growHeap a b)
    (hLimit : base + n * pageSize < userMaximumHeapBreak) : AtPages s b p base (n + 1) := by
  have hStart : (b.processes p).heapStart = base := by
    rw [Process.heapStart_of_fields hSame.own]
    exact h.start
  have hPages : (b.processes p).heapPages = n + 1 := by
    rw [Process.heapPages_of_fields hSame.own]
    unfold growHeap
    rw [h.pages]
    exact wrap32_of_lt (h.pages ▸ h.span.pages_lt)
  have hAligned := h.span.aligned
  have hUser := h.span.user
  rw [h.start] at hAligned hUser
  refine ⟨hStart, hPages, ⟨hStart ▸ hAligned, hStart ▸ hUser, by omega, .inr ?_⟩,
    h.outside.trans (.of_sameBut hSame unheaped_growHeap)⟩
  rw [hStart, hPages]
  unfold pageSize userMaximumHeapBreak at *
  omega

theorem cut (h : AtPages s a p base (n + 1)) (hSame : SameBut p cutHeap a b) (hMore : 0 < n) :
    AtPages s b p base n := by
  have hStart : (b.processes p).heapStart = base := by
    rw [Process.heapStart_of_fields hSame.own, heapStart_cutHeap, h.start]
  have hPages : (b.processes p).heapPages = n := by
    have hLess := h.span.pages_lt
    rw [h.pages] at hLess
    rw [Process.heapPages_of_fields hSame.own, heapPages_cutHeap, h.pages,
      sub32_of_le (by omega) (by omega), Nat.add_sub_cancel]
  obtain ⟨hAligned, hUser, -, hTop⟩ := h.span
  rw [h.start] at hAligned hUser hTop
  rw [h.pages] at hTop
  refine ⟨hStart, hPages, ⟨hStart ▸ hAligned, hStart ▸ hUser, by omega, ?_⟩,
    h.outside.trans (.of_sameBut hSame unheaped_cutHeap)⟩
  rw [hStart, hPages]
  unfold pageSize at *
  omega

end AtPages

structure SbrkOutcome (s t : Memory) (p : Nat) (amount : Int) (result : SbrkResult) : Prop where
  heapOk : (t.processes p).HeapOk
  start : (t.processes p).heapStart = (t.processes p).imageEnd
  outside : OutsideHeap p s t
  moved : requestedBreak s p amount < userMaximumHeapBreak →
    result = ⟨(s.processes p).currentBreak, true⟩ ∧ (t.processes p).heapBreak = requestedBreak s p amount
  failed : userMaximumHeapBreak ≤ requestedBreak s p amount →
    result = ⟨wordSize - 1, false⟩ ∧ (initializeHeap p).run s = .ok () t

namespace HeapRule

variable {p base first n : Nat} {Core : Memory → Nat → Prop} {s u a : Memory} {amount : Int}

/-- A round of the loop that expands the heap. -/
theorem expandRound (rule : HeapRule p base first Core) (hAt : AtPages s a p base n)
    (hCore : Core a n) (hFirst : first ≤ n) (hLimit : base + n * pageSize < userMaximumHeapBreak) :
    Finishes (fun _ m => AtPages s (m.modifyProcess p growHeap) p base (n + 1) ∧
        Core (m.modifyProcess p growHeap) (n + 1)) Starved
      ((mapNewPage p (a.processes p).heapTop true).run a) := by
  refine (Finishes.of_run _).mono (fun _ m hMap => ?_) fun _ _ hMap => ?_
  · obtain ⟨-, -, hRest, frame, hPage⟩ := mapNewPage_returns (rule.layout a n hCore) hMap
    have hSame : SameBut p growHeap a (m.modifyProcess p growHeap) := hRest.modify p fun _ => rfl
    refine ⟨hAt.grow hSame hLimit, rule.add a _ n _ frame hCore hFirst hAt.page_mul ?_
      (hPage.modifyFields sameSpace_growHeap) (.of_sameBut hSame unheaped_growHeap)⟩
    unfold InArea
    rw [hAt.page_mul]
    exact ⟨Nat.le_add_right .., .inl hLimit⟩
  · refine (mapNewPage_spec.of_stops hMap).2 hAt.span.heapTop_aligned ?_
    rw [hAt.heapTop_eq]
    exact hLimit.trans (by decide)

/-- A round of the loop that shrinks it. -/
theorem shrinkRound (rule : HeapRule p base first Core) (hAt : AtPages s a p base (n + 1))
    (hCore : Core a (n + 1)) (hMore : 0 < n) :
    Finishes (fun _ m => AtPages s (m.modifyProcess p cutHeap) p base n ∧
        Core (m.modifyProcess p cutHeap) n) Starved
      ((releasePage p (sub32 (a.processes p).heapTop pageSize)).run a) := by
  have hMapped := rule.mapped a n _ hCore hAt.below_mul hAt.below_inArea
  have hUser : sub32 (a.processes p).heapTop pageSize < kernelAreaStart := by
    have hTop := hAt.span.top_lt
    rw [hAt.start, hAt.pages, Nat.succ_mul] at hTop
    rw [hAt.below_eq]
    unfold pageSize at *
    omega
  refine (releasePage_spec (rule.layout a _ hCore)).mono (fun _ m hReleased => ?_) fun _ _ hNone => ?_
  · obtain ⟨hRest, hPage⟩ := hReleased hUser
    have hSame : SameBut p cutHeap a (m.modifyProcess p cutHeap) := hRest.modify p fun _ => rfl
    exact ⟨hAt.cut hSame hMore, rule.remove a _ n _ hCore hAt.below_mul hAt.below_inArea
      (hPage.modifyFields sameSpace_cutHeap) (.of_sameBut hSame unheaped_cutHeap)⟩
  · rw [hNone] at hMapped
    cases hMapped

/-- The heap grows until its end is not below the new break, and shrinks until its last page is not
above it. -/
theorem moveBreak (rule : HeapRule p base first Core) {brkOld brkNew : Nat}
    (hAt : AtPages s u p base n) (hCore : Core u n) (hFirst : first ≤ n)
    (hLimit : brkNew < userMaximumHeapBreak) (hBase : base ≤ brkNew) :
    Finishes (fun result t => result = ⟨brkOld, true⟩ ∧ ∃ w k,
        t = w.modifyProcess p (Memory.setBreak brkNew) ∧ AtPages s w p base (k + 1) ∧
        Core w (k + 1) ∧ base + k * pageSize ≤ brkNew ∧ brkNew ≤ base + (k + 1) * pageSize)
      Starved ((Memory.moveBreak p brkOld brkNew).run u) := by
  have hAll : userMaximumHeapBreak ≤ frameCount * pageSize := by decide
  have hUser : kernelAreaStart ≤ frameCount * pageSize := by decide
  refine (whileDo_finishes (fun m : Memory => (m.processes p).heapTop < brkNew)
    (fun m => mapNewPage p (m.processes p).heapTop true) (fun _ => rfl)
    (fun left a => ∃ m, first ≤ m ∧ AtPages s a p base m ∧ Core a m ∧
      brkNew ≤ base + (m + left) * pageSize) ?_ ?_ ⟨n, hFirst, hAt, hCore, ?_⟩).bind ?_
      fun _ _ hStop => hStop
  · rintro a ⟨m, -, hAt, -, hLeft⟩
    rw [hAt.heapTop_eq]
    exact Nat.not_lt.mpr hLeft
  · rintro left a ⟨m, hMore, hAt, hCore, hLeft⟩ hTop
    rw [hAt.heapTop_eq] at hTop
    refine (rule.expandRound hAt hCore hMore (by omega)).mono (fun _ _ hNext => ?_)
      fun _ _ hStop => hStop
    refine ⟨m + 1, by omega, hNext.1, hNext.2, ?_⟩
    rwa [Nat.add_right_comm]
  · rw [Nat.add_mul]
    omega
  rintro _ v ⟨⟨-, m, -, hAt, hCore, -⟩, hTop⟩
  obtain ⟨k, rfl⟩ := hAt.exists_eq_succ
  rw [hAt.heapTop_eq] at hTop
  refine (whileDo_finishes (fun m : Memory => brkNew < sub32 (m.processes p).heapTop pageSize)
    (fun m => releasePage p (sub32 (m.processes p).heapTop pageSize)) (fun _ => rfl)
    (fun left a => ∃ k, AtPages s a p base (k + 1) ∧ Core a (k + 1) ∧
      brkNew ≤ base + (k + 1) * pageSize ∧ base + k * pageSize ≤ brkNew + left * pageSize)
    ?_ ?_ ⟨k, hAt, hCore, by omega, ?_⟩).bind ?_ fun _ _ hStop => hStop
  · rintro a ⟨k, hAt, -, -, hLeft⟩
    rw [hAt.below_eq]
    omega
  · rintro left a ⟨k, hAt, hCore, -, hLeft⟩ hTop
    rw [hAt.below_eq] at hTop
    obtain ⟨k, rfl⟩ : ∃ more, k = more + 1 := by
      apply Nat.exists_eq_succ_of_ne_zero
      rintro rfl
      omega
    refine (rule.shrinkRound hAt hCore (Nat.succ_pos k)).mono (fun _ _ hNext => ?_)
      fun _ _ hStop => hStop
    refine ⟨k, hNext.1, hNext.2, hTop.le, ?_⟩
    rw [Nat.succ_mul, Nat.succ_mul] at hLeft
    omega
  · have hSmall := hAt.span.top_lt
    rw [hAt.start, hAt.pages, Nat.succ_mul] at hSmall
    omega
  rintro _ w ⟨⟨-, k, hAt, hCore, hReached, -⟩, hBelow⟩
  rw [hAt.below_eq] at hBelow
  exact .returns ⟨rfl, w, k, rfl, hAt, hCore, by omega, hReached⟩

/-- The first call sets the heap up. -/
theorem setup (rule : HeapRule p base 0 Core) (hCore : Core s 0) {m : Memory}
    (hMap : (mapNewPage p base true).run s = .ok () m) :
    AtPages s (m.modifyProcess p (setupHeap base)) p base 1 ∧
      Core (m.modifyProcess p (setupHeap base)) 1 ∧
      ((m.modifyProcess p (setupHeap base)).processes p).HeapOk := by
  obtain ⟨hAligned, hUser, hRest, frame, hPage⟩ := mapNewPage_returns (rule.layout s 0 hCore) hMap
  have hProcess : (m.modifyProcess p (setupHeap base)).processes p = setupHeap base (m.processes p) := by
    rw [modifyProcess_processes, if_pos rfl]
  have hOutside : OutsideHeap p s (m.modifyProcess p (setupHeap base)) :=
    .of_sameBut (hRest.modify p fun _ => rfl) (unheaped_setupHeap base)
  have hOk : ((m.modifyProcess p (setupHeap base)).processes p).HeapOk := by
    rw [hProcess]
    refine ⟨hAligned, hUser, Nat.one_pos, ?_, ?_, .inr rfl⟩
    · change base + (1 - 1) * pageSize ≤ base
      omega
    · exact Nat.le_add_right ..
  have hMul : base / pageSize * pageSize = base :=
    Nat.div_mul_cancel (Nat.dvd_of_mod_eq_zero hAligned)
  refine ⟨⟨by rw [hProcess]; rfl, by rw [hProcess]; rfl, hOk.span, hOutside⟩, ?_, hOk⟩
  refine rule.add s _ 0 (base / pageSize) frame hCore (le_refl 0) (by omega) ?_
    (hPage.modifyFields (sameSpace_setupHeap base)) hOutside
  exact ⟨hMul.symm.le, .inr hMul⟩

variable (rule : HeapRule p base first Core) (hFirst : (s.processes p).heapCount = first)
  (hBase : (s.processes p).imageEnd = base) (hCore : Core s first)
  (hHeap : (s.processes p).heapBreak ≠ 0 → (s.processes p).HeapOk ∧ (s.processes p).heapStart
    = (s.processes p).imageEnd)

include rule hFirst hBase hCore hHeap

/-- The heap is there when its first page is mapped or was mapped before. -/
theorem initializeHeap : Finishes (fun _ u => ∃ n, first ≤ n ∧ AtPages s u p base n ∧ Core u n ∧
        (u.processes p).heapBreak = (s.processes p).currentBreak ∧ (u.processes p).HeapOk)
      (fun reason t => base % pageSize = 0 → base < kernelAreaStart → Starved reason t)
      ((Memory.initializeHeap p).run s) := by
  unfold Memory.initializeHeap
  rw [run_get_bind]
  by_cases hUnset : (s.processes p).heapBreak = 0
  · obtain rfl : 0 = first := hFirst ▸ (if_pos hUnset).symm
    rw [if_pos hUnset, run_get_bind, hBase]
    refine (Finishes.of_run _).bind (fun _ m hMap => ?_) fun _ _ hMap => (mapNewPage_spec.of_stops hMap).2
    obtain ⟨hAt, hCore, hOk⟩ := rule.setup hCore hMap
    refine .returns ⟨1, Nat.zero_le 1, hAt, hCore, ?_, hOk⟩
    rw [modifyProcess_processes, if_pos rfl]
    exact hBase.symm.trans (if_pos hUnset).symm
  · rw [if_neg hUnset]
    obtain ⟨hOk, hStart⟩ := hHeap hUnset
    have hPages : (s.processes p).heapPages = first := hFirst ▸ (if_neg hUnset).symm
    exact .returns ⟨first, le_refl first, ⟨hStart.trans hBase, hPages, hOk.span, OutsideHeap.refl p s⟩,
      hCore, (if_neg hUnset).symm, hOk⟩

/-- A call either ends with the property for the pages that the heap then has, or it stops,
which for a heap of the user means that there are no physical pages left. -/
theorem sbrk (hNotBelow : NotBelow s p amount) :
    Finishes (fun result t => Core t (t.processes p).heapPages ∧ SbrkOutcome s t p amount result)
      (fun reason t => base % pageSize = 0 → base < kernelAreaStart → Starved reason t)
      ((Memory.sbrk p amount).run s) := by
  refine ((rule.initializeHeap hFirst hBase hCore hHeap).and (.of_run _)).bind ?_ fun _ _ hStop => hStop.1
  rintro _ u ⟨⟨n, hMore, hAt, hCore, hOld, hOk⟩, hInit⟩
  rw [run_get_bind]
  change Finishes _ _ (EStateM.run (if userMaximumHeapBreak ≤ offset32 (u.processes p).heapBreak amount
    then _ else Memory.moveBreak p (u.processes p).heapBreak _) u)
  rw [hOld, show offset32 (s.processes p).currentBreak amount = requestedBreak s p amount from rfl]
  by_cases hLimit : userMaximumHeapBreak ≤ requestedBreak s p amount
  · rw [if_pos hLimit]
    refine .returns ⟨hAt.pages ▸ hCore, hOk, ?_, hAt.outside, fun hLess => ?_, fun _ => ⟨rfl, hInit⟩⟩
    · rw [hAt.start, hAt.outside.imageEnd_eq, hBase]
    · omega
  rw [if_neg hLimit]
  rw [Nat.not_le] at hLimit
  refine (rule.moveBreak hAt hCore hMore hLimit (hBase ▸ hNotBelow hLimit)).mono ?_
    fun _ _ hStop _ _ => hStop
  rintro _ _ ⟨rfl, w, k, rfl, hAt, hCore, hLower, hUpper⟩
  have hProcess : (w.modifyProcess p (Memory.setBreak (requestedBreak s p amount))).processes p =
      Memory.setBreak (requestedBreak s p amount) (w.processes p) := by
    rw [modifyProcess_processes, if_pos rfl]
  have hOutside : OutsideHeap p w (w.modifyProcess p (Memory.setBreak (requestedBreak s p amount))) :=
    .of_sameBut ((SameRest.refl w).modify p fun _ => rfl) fun _ => rfl
  obtain ⟨hAligned, hUser, hPos, -⟩ := hAt.span
  refine ⟨?_, ?_, ?_, hAt.outside.trans hOutside, fun _ => ⟨rfl, ?_⟩, fun hMore => ?_⟩
  · rw [hProcess]
    change Core _ (w.processes p).heapPages
    rw [hAt.pages]
    exact rule.setBreak w (k + 1) _ hCore
  · rw [hProcess]
    refine ⟨hAligned, hUser, hPos, ?_, ?_, .inl hLimit⟩
    · change (w.processes p).heapStart + ((w.processes p).heapPages - 1) * pageSize ≤ _
      rw [hAt.start, hAt.pages]
      exact hLower
    · change _ ≤ (w.processes p).heapStart + (w.processes p).heapPages * pageSize
      rw [hAt.start, hAt.pages]
      exact hUpper
  · rw [hOutside.imageEnd_eq, hProcess]
    change (w.processes p).heapStart = _
    rw [hAt.start, hAt.outside.imageEnd_eq, hBase]
  · rw [hProcess]
    rfl
  · omega

end HeapRule

end Kernel.Memory
