import MeetiX.Base.Run
import MeetiX.Kernel.FileSystem.RamdiskImage

/-! The identifiers of entries that are created on a loaded ramdisk. An identifier above the
counter raises it while the ramdisk loads, one that equals it does not. So the counter ends up
behind the largest identifier or on it, depending on how the others lead up to it. -/
namespace Kernel.Ramdisk

open Base List

/-- The counter for new identifiers after a header. -/
def raise (nextUnusedId id : Nat) : Nat :=
  if nextUnusedId < id then wrap32 (id + 1) else nextUnusedId

theorem loadEntries_counter {memory : Nat → UInt8} {module : MultibootModule}
    {fuel position nextUnusedId last stop : Nat} {headers : List RamdiskEntry}
    (h : loadEntries memory module fuel position nextUnusedId = some (headers, last, stop)) :
    last = (headers.map RamdiskEntry.id).foldl raise nextUnusedId := by
  induction fuel generalizing position nextUnusedId headers with
  | zero => simp [loadEntries] at h
  | succ fuel ih =>
    rw [loadEntries] at h
    split at h
    · obtain ⟨⟨rest, rest'⟩, hRest, hCons⟩ := Option.map_eq_some_iff.mp h
      cases hCons
      have hLast := ih hRest
      exact hLast
    · cases h
      rfl

def largest (ids : List Nat) : Nat := ids.foldr max 0

theorem largest_cons (id : Nat) (ids : List Nat) : largest (id :: ids) = max id (largest ids) := rfl

/-- How many consecutive identifiers lead up to `id`, with `id` itself, in a list that
has the last one first. -/
def ascent : Nat → List Nat → Nat
  | _, [] => 0
  | id, last :: earlier => if last = id then ascent (id - 1) earlier + 1 else ascent id earlier

section Counter

variable {ids : List Nat}

theorem le_largest {id : Nat} (h : id ∈ ids) : id ≤ largest ids := by
  induction ids with
  | nil => cases h
  | cons first ids ih =>
    rcases mem_cons.mp h with rfl | hRest
    · exact le_max_left _ _
    · exact (ih hRest).trans (le_max_right _ _)

theorem largest_mem (h : ids ≠ []) : largest ids ∈ ids := by
  induction ids with
  | nil => exact absurd rfl h
  | cons first ids ih =>
    cases ids with
    | nil => simp [largest]
    | cons second ids =>
      rw [largest_cons]
      rcases max_choice first (largest (second :: ids)) with hMax | hMax
      · rw [hMax]
        exact mem_cons_self
      · rw [hMax]
        exact mem_cons_of_mem first (ih (cons_ne_nil _ _))

theorem largest_reverse (ids : List Nat) : largest ids.reverse = largest ids := by
  exact (reverse_perm ids).foldr_eq 0

theorem ascent_of_not_mem {id : Nat} (h : id ∉ ids) : ascent id ids = 0 := by
  induction ids with
  | nil => rfl
  | cons last ids ih =>
    rw [mem_cons, not_or] at h
    rw [ascent, if_neg (Ne.symm h.1), ih h.2]

/-- The counter is the largest identifier, or the number behind it when an odd number of
consecutive identifiers leads up to it. The list has the last identifier first. -/
theorem counter_eq (hNodup : ids.Nodup) (hZero : 0 ∉ ids) (hLargest : largest ids + 1 < wordSize) :
    ids.foldr (fun id n => raise n id) 0 = largest ids + ascent (largest ids) ids % 2 := by
  induction ids with
  | nil => rfl
  | cons last ids ih =>
    obtain ⟨hLast, hNodup⟩ := nodup_cons.mp hNodup
    rw [mem_cons, not_or] at hZero
    rw [largest_cons] at hLargest ⊢
    have hCounter := ih hNodup hZero.2 (by omega)
    rw [foldr_cons, hCounter, raise]
    rcases Nat.lt_trichotomy last (largest ids) with hBelow | hSame | hAbove
    · rw [max_eq_right hBelow.le, if_neg (by omega), ascent, if_neg (by omega)]
    · have hEmpty : ids = [] := by
        by_contra hSome
        exact hLast (hSame ▸ largest_mem hSome)
      rw [hEmpty] at hSame
      exact absurd hSame.symm hZero.1
    · rw [max_eq_left hAbove.le, ascent, if_pos rfl, wrap32_of_lt (by omega)]
      by_cases hNext : last - 1 = largest ids
      · rw [hNext]
        split <;> omega
      · have hGap : last - 1 ∉ ids := fun hMem => by
          have hLe := le_largest hMem
          omega
        rw [ascent_of_not_mem hGap, if_pos (by omega)]

/-- The numbers of `count` entries, created one after the other from the counter `first` on. The
last one stands first. -/
def numbers (first count : Nat) : List Nat :=
  ((range count).map fun i => wrap32 (first + i)).reverse

theorem mem_numbers {first count id : Nat} :
    id ∈ numbers first count ↔ ∃ i < count, wrap32 (first + i) = id := by
  simp [numbers]

/-- Numbers from the largest identifier on are new if and only if they begin behind it and do not
come around to the number of the root. -/
theorem fresh_iff {first count : Nat} (hNodup : ids.Nodup) (hZero : 0 ∉ ids) (hCount : 0 < count)
    (hFirst : largest ids ≤ first) (hWord : first < wordSize) :
    ((numbers first count ++ ids).Nodup ∧ 0 ∉ numbers first count ++ ids) ↔
      largest ids < first ∧ first + count ≤ wordSize := by
  constructor
  · rintro ⟨hDistinct, hRoot⟩
    refine ⟨lt_of_le_of_ne hFirst fun hSame => ?_, ?_⟩
    · have hNew : first ∈ numbers first count := mem_numbers.mpr ⟨0, hCount, wrap32_of_lt hWord⟩
      by_cases hEmpty : ids = []
      · -- the first number is the one of the root
        have hNull : first = 0 := by rw [← hSame, hEmpty]; rfl
        exact hRoot (mem_append_left _ (hNull ▸ hNew))
      · exact disjoint_of_nodup_append hDistinct hNew (hSame ▸ largest_mem hEmpty)
    · by_contra hMany
      refine hRoot (mem_append_left _ (mem_numbers.mpr ⟨wordSize - first, by omega, ?_⟩))
      rw [Nat.add_sub_cancel' hWord.le]
      exact Nat.mod_self wordSize
  · rintro ⟨hBehind, hRoom⟩
    have hAbove : ∀ id ∈ numbers first count, first ≤ id := by
      intro id hId
      obtain ⟨i, hi, rfl⟩ := mem_numbers.mp hId
      rw [wrap32_of_lt (by omega)]
      omega
    have hRange : (numbers first count).Nodup := by
      refine nodup_reverse.mpr (nodup_range.map_on fun i hi j hj hSame => ?_)
      rw [mem_range] at hi hj
      rw [wrap32_of_lt (by omega), wrap32_of_lt (by omega)] at hSame
      omega
    constructor
    · refine nodup_append'.mpr ⟨hRange, hNodup, fun id hNew hOld => ?_⟩
      have hLow := hAbove id hNew
      have hHigh := le_largest hOld
      omega
    · refine not_mem_append (fun hNew => ?_) hZero
      have hLow := hAbove 0 hNew
      omega

end Counter

def CreateStep (ramdisk : Ramdisk) (call : RamdiskEntry × CString) (next : Ramdisk) : Prop :=
  next = (ramdisk.createChild call.1 call.2).2

/-- The created entries stand in front of the others, the last one first, and have the
numbers from the counter on. -/
theorem ids_of_creates {ramdisk final : Ramdisk} {calls : List (RamdiskEntry × CString)}
    (run : Run CreateStep ramdisk calls final) (hCounter : ramdisk.nextUnusedId < wordSize) :
    final.root = ramdisk.root ∧
      final.nextUnusedId = wrap32 (ramdisk.nextUnusedId + calls.length) ∧
      final.headers.map RamdiskEntry.id =
        numbers ramdisk.nextUnusedId calls.length ++ ramdisk.headers.map RamdiskEntry.id := by
  induction run with
  | nil => exact ⟨rfl, (wrap32_of_lt hCounter).symm, rfl⟩
  | @snoc middle final calls call prior last ih =>
    obtain ⟨hRoot, hNext, hIds⟩ := ih
    cases last
    rw [length_append, length_singleton]
    refine ⟨hRoot, ?_, ?_⟩
    · rw [createChild, hNext]
      exact Nat.mod_add_mod _ _ _
    · rw [createChild, map_cons, hIds, hNext, numbers, numbers, range_succ, map_append,
        reverse_append]
      rfl

/-- The entries have different identifiers, none of them that of the root, and each is
found by its own. -/
def Distinguished (ramdisk : Ramdisk) : Prop :=
  (ramdisk.headers.Pairwise fun a b => a.id ≠ b.id) ∧
  ∀ entry ∈ ramdisk.headers, entry.id ≠ ramdisk.root.id ∧ ramdisk.findById entry.id = some entry

theorem distinguished_iff {ramdisk : Ramdisk} (hRoot : ramdisk.root.id = 0)
    (hIds : ∀ id ∈ ramdisk.headers.map RamdiskEntry.id, id < wordSize) :
    Distinguished ramdisk ↔
      (ramdisk.headers.map RamdiskEntry.id).Nodup ∧ 0 ∉ ramdisk.headers.map RamdiskEntry.id := by
  have hNodup : (ramdisk.headers.Pairwise fun a b => a.id ≠ b.id) ↔
      (ramdisk.headers.map RamdiskEntry.id).Nodup := pairwise_map.symm
  rw [Distinguished, hNodup, hRoot]
  refine and_congr_right fun hDistinct => ⟨fun hAll hZero => ?_, fun hZero entry hEntry => ?_⟩
  · obtain ⟨entry, hEntry, hId⟩ := mem_map.mp hZero
    exact (hAll entry hEntry).1 hId
  · have hMem := mem_map_of_mem (f := RamdiskEntry.id) hEntry
    have hNe : entry.id ≠ 0 := fun hId => hZero (hId ▸ hMem)
    refine ⟨hNe, ?_⟩
    rw [findById, wrap32_of_lt (hIds _ hMem), if_neg hNe]
    obtain ⟨found, hFound⟩ := Option.isSome_iff_exists.mp
      (find?_isSome.mpr ⟨entry, hEntry, by simp⟩ :
        (ramdisk.headers.find? fun current => current.id = entry.id).isSome)
    have hSame : found.id = entry.id := by simpa using find?_some hFound
    rw [hFound, inj_on_of_nodup_map hDistinct (mem_of_find?_eq_some hFound) hEntry hSame]

/-- The entries created on a loaded ramdisk get identifiers of their own if and only if an odd
number of consecutive identifiers, each behind the one before it in the image, leads up to the
largest one, and the numbers behind it suffice. Without entries there is no such number. -/
theorem created_distinguished_iff {memory : Nat → UInt8} {module : MultibootModule}
    {ramdisk final : Ramdisk} {position : Nat} {calls : List (RamdiskEntry × CString)}
    (hLoad : load memory module = some (ramdisk, position))
    (hNodup : (ramdisk.headers.map RamdiskEntry.id).Nodup)
    (hZero : 0 ∉ ramdisk.headers.map RamdiskEntry.id) (run : Run CreateStep ramdisk calls final)
    (hCalls : calls ≠ [])
    (hLargest : largest (ramdisk.headers.map RamdiskEntry.id) + 1 < wordSize) :
    Distinguished final ↔
      ascent (largest (ramdisk.headers.map RamdiskEntry.id))
          (ramdisk.headers.map RamdiskEntry.id).reverse % 2 = 1 ∧
        largest (ramdisk.headers.map RamdiskEntry.id) + calls.length < wordSize := by
  obtain ⟨⟨headers, last, stop⟩, hEntries, hRamdisk⟩ := Option.map_eq_some_iff.mp hLoad
  cases hRamdisk
  have hLast := loadEntries_counter hEntries
  generalize hList : headers.map RamdiskEntry.id = ids at *
  have hCounter : last = largest ids + ascent (largest ids) ids.reverse % 2 := by
    have hReverse := counter_eq (nodup_reverse.mpr hNodup) (by simpa using hZero)
      (by rw [largest_reverse]; omega)
    rw [largest_reverse, foldr_reverse] at hReverse
    rw [hLast, hReverse]
  have hWord : last < wordSize := by omega
  obtain ⟨hRoot, -, hFinal⟩ := ids_of_creates run hWord
  dsimp only at hRoot hFinal
  rw [hList] at hFinal
  have hBelow : ∀ id ∈ final.headers.map RamdiskEntry.id, id < wordSize := by
    rw [hFinal]
    intro id hId
    rcases mem_append.mp hId with hNew | hOld
    · obtain ⟨i, -, rfl⟩ := mem_numbers.mp hNew
      exact wrap32_lt _
    · have hLe := le_largest hOld
      omega
  rw [distinguished_iff (by rw [hRoot]; rfl) hBelow, hFinal,
    fresh_iff hNodup hZero (length_pos_iff.mpr hCalls) (by omega) hWord]
  omega

/-- A file in a folder, with the identifiers 1 and 3. -/
def sparseImage : List ImageEntry :=
  [⟨.folder, 1, 0, [97], by decide, by decide, by decide⟩,
    ⟨.file [5], 3, 1, [98], by decide, by decide, by decide⟩]

/-- The same with the identifiers 1 and 2. -/
def denseImage : List ImageEntry :=
  [⟨.folder, 1, 0, [97], by decide, by decide, by decide⟩,
    ⟨.file [5], 2, 1, [98], by decide, by decide, by decide⟩]

/-- Memory with an image at the address where boot loaders put modules. -/
def imageMemory (entries : List ImageEntry) (address : Nat) : UInt8 :=
  (encodeImage entries).getD (address - 0x200000) 0

/-- With identifiers 1 and 3 the created file gets the number 4. -/
theorem created_distinguished_iff_sparse :
    ∃ ramdisk position, load (imageMemory sparseImage) ⟨0x200000, 0x200021⟩ = some (ramdisk, position) ∧
      Distinguished (ramdisk.createChild rootEntry [99]).2 := by
  have hLoad : load (imageMemory sparseImage) ⟨0x200000, 0x200021⟩ = _ :=
    @load_eq _ 0x200000 sparseImage (by decide) (by decide)
  have hCreate : CreateStep ⟨rootEntry, sparseImage.map ImageEntry.header, 4⟩ (rootEntry, [99]) _ := rfl
  refine ⟨_, _, hLoad, ?_⟩
  exact (created_distinguished_iff hLoad (by decide) (by decide) (Run.single hCreate) (by decide)
    (by decide)).mpr (by decide)

/-- With identifiers 1 and 2 the counter stays at 2, and the created file takes the place
of the other one. -/
theorem created_file_hides_file :
    ∃ ramdisk position, load (imageMemory denseImage) ⟨0x200000, 0x200021⟩ = some (ramdisk, position) ∧
      (ramdisk.createChild rootEntry [99]).1.id = 2 ∧ (∃ other ∈ ramdisk.headers, other.id = 2) ∧
      (ramdisk.findById 2).map RamdiskEntry.name = some [98] ∧
      ((ramdisk.createChild rootEntry [99]).2.findById 2).map RamdiskEntry.name = some [99] := by
  have hLoad : load (imageMemory denseImage) ⟨0x200000, 0x200021⟩ = _ :=
    @load_eq _ 0x200000 denseImage (by decide) (by decide)
  exact ⟨_, _, hLoad, by decide, by decide, by decide, by decide⟩

end Kernel.Ramdisk
