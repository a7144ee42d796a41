import MeetiX.Kernel.Memory.SharedMemory

/-! What happens to a process when one of its pages is backed with a new physical page, and
when a page is taken away from it. -/
namespace Kernel.Memory

open Base

/-- The fields of a process other than its page tables. -/
def Process.fields (q : Process) : Process :=
  { q with tables := fun _ => false, pages := fun _ => none }

/-- Apart from the page tables and the physical pages everything is the same. -/
structure SameRest (s t : Memory) : Prop where
  fields : ∀ q, (t.processes q).fields = (s.processes q).fields
  processCount : t.processCount = s.processCount
  threads : t.threads = s.threads
  contents : t.contents = s.contents

namespace SameRest

variable {s t u : Memory}

theorem refl (s : Memory) : SameRest s s :=
  ⟨fun _ => rfl, rfl, rfl, rfl⟩

theorem trans (h : SameRest s t) (h' : SameRest t u) : SameRest s u :=
  ⟨fun q => (h'.fields q).trans (h.fields q), h'.processCount.trans h.processCount,
    h'.threads.trans h.threads, h'.contents.trans h.contents⟩

theorem of_spaces (hProcesses : t.processes = s.processes) (hCount : t.processCount = s.processCount)
    (hThreads : t.threads = s.threads) (hContents : t.contents = s.contents) : SameRest s t :=
  ⟨fun q => by rw [hProcesses], hCount, hThreads, hContents⟩

theorem tabled {space page : Nat} (h : Tabled s space page t) : SameRest s t := by
  cases h with
  | present => exact refl s
  | created =>
    refine ⟨fun q => ?_, rfl, rfl, rfl⟩
    by_cases hq : q = space
    · subst hq
      simp [addTable, Process.fields]
    · simp [addTable, hq]

theorem setEntry (s : Memory) (p page : Nat) (value : Option PageEntry) :
    SameRest s (s.setEntry p page value) := by
  unfold Memory.setEntry
  split
  · exact ⟨fun _ => rfl, rfl, rfl, rfl⟩
  · refine ⟨fun q => ?_, rfl, rfl, rfl⟩
    by_cases hq : q = p
    · subst hq
      simp [Process.fields]
    · simp [hq]

end SameRest

/-- A page of the process is backed with a physical page that was free, unless it was mapped
already. A table for it may take another one. -/
structure NewPage (s t : Memory) (p page frame : Nat) (counted : Bool) : Prop where
  layout : Layout t
  frame_ne_zero : frame ≠ 0
  fresh : s.isFree frame = true
  taken : ∀ f, t.isFree f = true → s.isFree f = true ∧ f ≠ frame
  entry : ∀ q g, t.entry q g =
    if g = page ∧ (page < tableEntries ∨ q = p) ∧ s.entry p page = none then some ⟨frame, true⟩
    else s.entry q g
  count : ∀ f, t.count f =
    if counted = true ∧ f = frame then Int.bmod (s.count f + 1) 65536 else s.count f

variable {change : Process → Process} {s t : Memory} {p page frame f space : Nat} {counted : Bool}

theorem entry_modifyPages (m : Memory) (p : Nat)
    (hPages : ∀ q, (change q).pages = q.pages) (q page : Nat) :
    (m.modifyProcess p change).entry q page = m.entry q page := by
  apply entry_of_pages
  · rfl
  · intro other
    by_cases hOther : other = p
    · subst hOther
      simp [hPages]
    · simp [hOther]

theorem entry_modifyFields (m : Memory) (p : Nat)
    (hChange : ∀ q, SameSpace q (change q)) (q page : Nat) :
    (m.modifyProcess p change).entry q page = m.entry q page :=
  entry_modifyPages m p (fun q => (hChange q).pages) q page

section

variable (h : NewPage s t p page frame counted)

include h

theorem NewPage.used (hUsed : s.isFree f = false) : t.isFree f = false := by
  rw [Bool.eq_false_iff] at hUsed ⊢
  exact fun hFree => hUsed (h.taken f hFree).1

theorem NewPage.used_frame : t.isFree frame = false :=
  Bool.eq_false_iff.mpr fun hFree => (h.taken frame hFree).2 rfl

theorem NewPage.modifyFields (hChange : ∀ q, SameSpace q (change q)) :
    NewPage s (t.modifyProcess p change) p page frame counted where
  layout := KeptByGrowth.fields t p change hChange h.layout
  frame_ne_zero := h.frame_ne_zero
  fresh := h.fresh
  taken := h.taken
  entry q g := (entry_modifyFields t p hChange q g).trans (h.entry q g)
  count := h.count

theorem NewPage.entry_own (g : Nat) : t.entry p g =
      if g = page ∧ s.entry p page = none then some ⟨frame, true⟩ else s.entry p g := by
  rw [h.entry]
  simp

end

theorem Tabled.references_eq (h : Tabled s space page t) : t.references = s.references := by
  cases h <;> rfl

theorem Tabled.isFree_of (h : Tabled s space page t)
    (hFree : t.isFree frame = true) : s.isFree frame = true := by
  cases h with
  | present => exact hFree
  | @created taken =>
    by_cases hEq : frame = taken
    · subst hEq
      simp [takeFrame] at hFree
    · simpa [takeFrame, hEq] using hFree

theorem isFree_takeFrame {m : Memory} (h : (m.takeFrame frame).isFree f = true) :
    m.isFree f = true ∧ f ≠ frame := by
  by_cases hEq : f = frame
  · subst hEq
    simp [takeFrame] at h
  · exact ⟨by simpa [takeFrame, hEq] using h, hEq⟩

section NewPage

variable {s t : Memory} {p virtualAddr : Nat} {counted : Bool}

/-- A page is taken and mapped unless the address is mapped already. At most a physical page has
been taken when it stops, and only the allocator can stop it for a page of the user. -/
theorem mapNewPage_spec :
    Finishes (fun _ t => virtualAddr % pageSize = 0 ∧ virtualAddr < kernelAreaStart ∧
        ∃ frame u w, frame ≠ 0 ∧ s.isFree frame = true ∧
          Tabled (s.takeFrame frame) p (virtualAddr / pageSize) u ∧
          w = (if (u.entry p (virtualAddr / pageSize)).isNone then
            u.setEntry p (virtualAddr / pageSize) (some ⟨frame, true⟩) else u) ∧
          t = if counted then w.setCount frame (Int.bmod (w.count frame + 1) 65536) else w)
      (fun reason t => (t = s ∨ ∃ frame, t = s.takeFrame frame) ∧
        (virtualAddr % pageSize = 0 → virtualAddr < kernelAreaStart → Starved reason t))
      ((mapNewPage p virtualAddr counted).run s) := by
  refine PPallocator.allocate_spec.bind ?_ ?_
  · rintro _ _ ⟨frame, rfl, hZero, hFree, rfl⟩
    have hUnit : frame * pageSize / pageSize = frame := Nat.mul_div_cancel _ (by decide)
    refine AddressSpace.map_spec.bind ?_ ?_
    · rintro _ _ ⟨hAligned, -, hUser, u, hTabled, rfl⟩
      rw [hUnit, Bool.or_false]
      cases counted with
      | false => exact .returns ⟨hAligned, hUser, frame, u, _, hZero, hFree, hTabled, rfl, rfl⟩
      | true =>
        refine .returns ⟨hAligned, hUser, frame, u, _, hZero, hFree, hTabled, rfl, ?_⟩
        rw [hUnit]
        rfl
    · rintro _ _ ⟨rfl, hStarved⟩
      exact ⟨.inr ⟨frame, rfl⟩, fun hAligned => hStarved hAligned (Nat.mul_mod_left ..)⟩
  · rintro _ _ ⟨rfl, hStarved⟩
    exact ⟨.inl rfl, fun _ _ => hStarved⟩

/-- A call that returns has mapped a physical page that was free, and nothing else has changed. -/
theorem mapNewPage_returns {value : Unit} (hLayout : Layout s)
    (h : (mapNewPage p virtualAddr counted).run s = .ok value t) :
    virtualAddr % pageSize = 0 ∧ virtualAddr < kernelAreaStart ∧
      SameRest s t ∧ ∃ frame, NewPage s t p (virtualAddr / pageSize) frame counted := by
  have hAfter : Layout t := Keeps.of_returns hLayout h
  obtain ⟨hAligned, hUser, frame, u, w, hZero, hFree, hTabled, hMapped, hCounted⟩ :=
    mapNewPage_spec.of_returns h
  have hTaken : Layout (s.takeFrame frame) := hLayout.of_spaces rfl rfl
  have hSame := hTabled.entry_eq hTaken
  have hEmpty : (u.entry p (virtualAddr / pageSize)).isNone =
      (s.entry p (virtualAddr / pageSize)).isNone := by
    rw [hSame]
    rfl
  refine ⟨hAligned, hUser, ?_⟩
  have hRest : SameRest s w := by
    have hTake : SameRest s (s.takeFrame frame) := .of_spaces rfl rfl rfl rfl
    have hTable : SameRest s u := hTake.trans (.tabled hTabled)
    rw [hMapped]
    split
    · exact hTable.trans (.setEntry ..)
    · exact hTable
  have hFreeOf : ∀ f, w.isFree f = true → s.isFree f = true ∧ f ≠ frame := by
    intro f hf
    apply isFree_takeFrame
    apply hTabled.isFree_of
    rw [hMapped] at hf
    split at hf
    · rwa [isFree_setEntry] at hf
    · exact hf
  have hEntry : ∀ q g, w.entry q g =
      if g = virtualAddr / pageSize ∧ (virtualAddr / pageSize < tableEntries ∨ q = p) ∧
        s.entry p (virtualAddr / pageSize) = none then some ⟨frame, true⟩ else s.entry q g := by
    intro q g
    rw [hMapped, hEmpty]
    cases hOld : s.entry p (virtualAddr / pageSize) with
    | none => simp [entry_setEntry, hSame]
    | some e => simp [hSame]
  have hCount : ∀ f, w.count f = s.count f := by
    intro f
    apply count_of_references
    rw [hMapped]
    split
    · rw [references_setEntry, hTabled.references_eq]
      rfl
    · exact hTabled.references_eq
  cases counted with
  | false =>
    cases hCounted
    exact ⟨hRest, frame, hAfter, hZero, hFree, hFreeOf, hEntry, by simpa using hCount⟩
  | true =>
    cases hCounted
    refine ⟨hRest.trans (.of_spaces rfl rfl rfl rfl), frame, hAfter, hZero, hFree, hFreeOf,
      hEntry, fun f => ?_⟩
    rw [if_pos rfl, count_setCount, hCount, hCount]
    by_cases hf : f = frame
    · simp [hf]
    · simp [hf]

/-- The action returns with the stated result, unless the physical pages run out. -/
def Completes {Value : Type} (action : Action Value) (s : Memory) (Post : Value → Memory → Prop) :
    Prop :=
  match action.run s with
  | .ok value t => Post value t
  | .error reason t => reason = .panic ∧ OutOfMemory t

theorem Completes.of_finishes {Value : Type} {action : Action Value}
    {Post : Value → Memory → Prop} (h : Finishes Post Starved (action.run s)) :
    Completes action s Post := by
  unfold Completes
  generalize action.run s = outcome at h
  cases h with
  | returns h => exact h
  | stops h => exact h

end NewPage

theorem releaseFrame_isFree (m : Memory) (frame f : Nat) :
    (m.releaseFrame frame).isFree f = true ↔ m.isFree f = true ∨ f = frame := by
  by_cases hf : f = frame
  · simp [releaseFrame, hf]
  · simp [releaseFrame, hf]

/-- A reference to a physical page is given up, and the page becomes free with the last one.
Nothing is known of pages that were never counted. -/
structure Released (free free' : Nat → Bool) (count count' : Nat → Int) (frame : Nat) : Prop where
  free_of : ∀ f, free' f = true → free f = true ∨ f = frame
  free_mono : ∀ f, free f = true → free' f = true
  count_of_ne : ∀ f, f ≠ frame → count' f = count f
  count : count frame ≠ 0 → count' frame = Int.bmod (count frame - 1) 65536 ∧
    (free' frame = true ↔ free frame = true ∨ count' frame = 0)

/-- Nothing else changes. -/
structure Dropped (s t : Memory) (frame : Nat) : Prop
    extends Released s.isFree t.isFree s.count t.count frame where
  eq : t = { s with
    isFree := t.isFree, freePageCount := t.freePageCount, references := t.references }

/-- One reference less, and without a reference the page is free. -/
theorem dropReference_spec : Finishes (fun _ t => Dropped s t frame) (fun _ _ => False)
      ((PPreferenceTracker.decrement (frame * pageSize) >>= fun left =>
        if left = 0 then PPallocator.free (frame * pageSize) else pure ()).run s) := by
  refine PPreferenceTracker.decrement_spec.bind (fun left w hDecrement => ?_) fun _ _ => False.elim
  have hUnit : frame * pageSize / pageSize = frame := Nat.mul_div_cancel _ (by decide)
  rw [hUnit] at hDecrement
  obtain ⟨hEq, hFreeSame, hOther, hOwn⟩ : w = { s with
        isFree := w.isFree, freePageCount := w.freePageCount, references := w.references } ∧
      w.isFree = s.isFree ∧ (∀ f, f ≠ frame → w.count f = s.count f) ∧ (s.count frame ≠ 0 →
        left = Int.bmod (s.count frame - 1) 65536 ∧ w.count frame = left) := by
    rcases hDecrement with ⟨rfl, -, hNone⟩ | ⟨hValue, rfl⟩
    · exact ⟨rfl, rfl, fun _ _ => rfl, fun hCount => absurd hNone hCount⟩
    · exact ⟨rfl, rfl, fun f hf => by rw [count_setCount, if_neg hf],
        fun _ => ⟨hValue, by rw [count_setCount, if_pos rfl]⟩⟩
  by_cases hZero : left = 0
  · rw [if_pos hZero]
    refine .returns ?_
    rw [hUnit]
    refine ⟨⟨fun f hf => ?_, fun f hf => ?_, hOther, fun hCount => ?_⟩, ?_⟩
    · rwa [releaseFrame_isFree, hFreeSame] at hf
    · rw [releaseFrame_isFree, hFreeSame]
      exact .inl hf
    · obtain ⟨hLeft, hLast⟩ := hOwn hCount
      change w.count frame = _ ∧ (_ ↔ _ ∨ w.count frame = 0)
      rw [releaseFrame_isFree, hLast, hZero]
      exact ⟨hZero ▸ hLeft, by simp⟩
    · conv_lhs => rw [hEq]
      rfl
  · rw [if_neg hZero]
    refine .returns ⟨⟨fun f hf => .inl (hFreeSame ▸ hf), fun f hf => hFreeSame ▸ hf, hOther,
      fun hCount => ?_⟩, hEq⟩
    obtain ⟨hLeft, hLast⟩ := hOwn hCount
    rw [hFreeSame, hLast]
    exact ⟨hLeft, by simp [hZero]⟩

theorem bmod_of_small {x : Int} (hLow : -32768 ≤ x) (hHigh : x < 32768) : Int.bmod x 65536 = x := by
  rw [Int.bmod_def]
  omega

/-- A page of the process is unmapped and gives up its reference to a physical page. -/
structure ReleasedPage (s t : Memory) (p page frame : Nat) : Prop
    extends Released s.isFree t.isFree s.count t.count frame where
  layout : Layout t
  entry : ∀ q g, t.entry q g =
    if g = page ∧ (page < tableEntries ∨ q = p) then none else s.entry q g

theorem ReleasedPage.modifyFields (h : ReleasedPage s t p page frame)
    (hChange : ∀ q, SameSpace q (change q)) :
    ReleasedPage s (t.modifyProcess p change) p page frame where
  toReleased := h.toReleased
  layout := KeptByGrowth.fields t p change hChange h.layout
  entry q g := (entry_modifyFields t p hChange q g).trans (h.entry q g)

theorem ReleasedPage.entry_own (h : ReleasedPage s t p page frame) (g : Nat) :
    t.entry p g = if g = page then none else s.entry p g := by
  rw [h.entry]
  simp

section ReleasedPage

variable {s t : Memory} {p virtualAddr : Nat}

/-- A page of the user is released unless it has no page table. -/
theorem releasePage_spec (hLayout : Layout s) : Finishes (fun _ t => virtualAddr < kernelAreaStart →
        SameRest s t ∧ ReleasedPage s t p (virtualAddr / pageSize)
          ((s.entry p (virtualAddr / pageSize)).elim 0 PageEntry.frame))
      (fun _ _ => s.entry p (virtualAddr / pageSize) = none)
      ((releasePage p virtualAddr).run s) := by
  refine .of_keeps (inferInstance : Keeps Layout (releasePage p virtualAddr)) hLayout ?_
  refine AddressSpace.virtualToPhysical_spec.bind ?_ fun _ _ hStop => hLayout.tables p _ hStop.2.2
  rintro _ middle ⟨rfl, frame, rfl, hFrame⟩
  refine dropReference_spec.mono (fun _ t hDropped hAfter hUser => ?_) fun _ _ => False.elim
  obtain ⟨hTable, hFrame⟩ := hFrame hUser
  rw [← hFrame]
  simp only [hTable, if_true] at hDropped
  have hProcesses := congrArg (·.processes) hDropped.eq
  have hSame : SameRest (middle.setEntry p (virtualAddr / pageSize) none) t :=
    .of_spaces hProcesses (congrArg (·.processCount) hDropped.eq)
      (congrArg (·.threads) hDropped.eq) (congrArg (·.contents) hDropped.eq)
  have hReleased := hDropped.toReleased
  rw [isFree_setEntry, show (middle.setEntry p (virtualAddr / pageSize) none).count = middle.count from
    funext (count_of_references (references_setEntry ..))] at hReleased
  refine ⟨(SameRest.setEntry ..).trans hSame, hReleased, hAfter, fun q g => ?_⟩
  rw [← entry_setEntry]
  exact entry_of_pages (congrArg (·.lowPages) hDropped.eq) (fun _ => by rw [hProcesses]) q g

end ReleasedPage

end Kernel.Memory
