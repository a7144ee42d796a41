import MeetiX.Kernel.FileSystem.Ramdisk

/-! How the loader finds the free physical pages: it walks along the memory map of the boot loader
and marks pages in the bitmap of the page allocator, a memory of its own. Bounds of regions have
64 bits. -/
namespace Loader

open Kernel Kernel.Ramdisk

/-- The bitmap of `BitMapPageAllocator`. -/
abbrev Bitmap := Nat → BitVec 8

namespace Bitmap

def bitsPerEntry : Nat := 8

def zeroed : Bitmap := fun _ => 0

variable (bitmap : Bitmap)

def set (index bit : Nat) : Bitmap :=
  Function.update bitmap index (bitmap index ||| 1#8 <<< bit)

def isSet (index bit : Nat) : Bool := (bitmap index &&& 1#8 <<< bit) != 0#8

def markFree (address : Nat) : Bitmap :=
  bitmap.set (address / pageSize / bitsPerEntry) (address / pageSize % bitsPerEntry)

def IsFree (address : Nat) : Prop :=
  bitmap.isSet (address / pageSize / bitsPerEntry) (address / pageSize % bitsPerEntry) = true

instance (bitmap : Bitmap) (address : Nat) : Decidable (bitmap.IsFree address) :=
  inferInstanceAs (Decidable (_ = _))

theorem isSet_eq (index : Nat) {bit : Nat} (hBit : bit < bitsPerEntry) :
    bitmap.isSet index bit = (bitmap index).getLsbD bit := by
  have hPow : BitVec.twoPow 8 bit ≠ 0#8 := by
    intro hZero
    have hLsb := congrArg (BitVec.getLsbD · bit) hZero
    simp only [BitVec.getLsbD_twoPow, decide_true, Bool.and_true, BitVec.getLsbD_zero,
      decide_eq_false_iff_not] at hLsb
    exact hLsb hBit
  rw [isSet, ← BitVec.twoPow_eq, BitVec.and_twoPow]
  cases (bitmap index).getLsbD bit with
  | true => simpa using hPow
  | false => rfl

theorem isFree_markFree {bitmap : Bitmap} {marked address : Nat} :
    (bitmap.markFree marked).IsFree address ↔
      address / pageSize = marked / pageSize ∨ bitmap.IsFree address := by
  have hBit : ∀ a : Nat, a % bitsPerEntry < bitsPerEntry := fun a => Nat.mod_lt _ (by decide)
  rw [IsFree, IsFree, isSet_eq _ _ (hBit _), isSet_eq _ _ (hBit _), markFree, set]
  by_cases hIndex : address / pageSize / bitsPerEntry = marked / pageSize / bitsPerEntry
  · rw [hIndex, Function.update_self, BitVec.getLsbD_or, Bool.or_eq_true, or_comm,
      ← BitVec.twoPow_eq, BitVec.getLsbD_twoPow, Bool.and_eq_true, decide_eq_true_eq,
      decide_eq_true_eq]
    apply or_congr_left
    constructor
    · intro hNew
      rw [← Nat.div_add_mod (address / pageSize) bitsPerEntry, hIndex, ← hNew.2, Nat.div_add_mod]
    · intro hSame
      exact ⟨hBit _, by rw [hSame]⟩
  · rw [Function.update_of_ne hIndex]
    have hNe : address / pageSize ≠ marked / pageSize := fun hSame => hIndex (by rw [hSame])
    simp [hNe]

end Bitmap

/-- The fields of `MultibootInformation` that are read. -/
structure MultibootInformation where
  modulesCount : Nat
  modulesAddress : Nat
  memoryMapLength : Nat
  memoryMapAddress : Nat

structure MultibootMmap where
  size : Nat
  baseAddressLower : Nat
  baseAddressHigher : Nat
  lengthLower : Nat
  lengthHigher : Nat
  type : Nat

section Loading

variable (memory : Nat → UInt8) (info : MultibootInformation) (reservedAreaEnd : Nat)

def mmapAt (map : Nat) : MultibootMmap where
  size := fetchWord memory map
  baseAddressLower := fetchWord memory (map + 4)
  baseAddressHigher := fetchWord memory (map + 8)
  lengthLower := fetchWord memory (map + 12)
  lengthHigher := fetchWord memory (map + 16)
  type := fetchWord memory (map + 20)

/-- `sizeof(MultibootModule)`. -/
def moduleSize : Nat := 16

def moduleAt (i : Nat) : MultibootModule where
  moduleStart := fetchWord memory (info.modulesAddress + moduleSize * i)
  moduleEnd := fetchWord memory (info.modulesAddress + moduleSize * i + 4)

namespace MultibootMmap

def longSize : Nat := 2 ^ 64

variable (map : MultibootMmap)

/-- The base address of a region. The two halves do not overlap. -/
def base : Nat := map.baseAddressLower + map.baseAddressHigher * wordSize

def length : Nat := map.lengthLower + map.lengthHigher * wordSize

/-- `PAGE_ALIGN_UP` of a value with 64 bits. -/
def pageAlignUpLong (n : Nat) : Nat :=
  if n % pageSize = 0 then n else (pageAlignDown n + pageSize) % longSize

/-- The first bound after it was moved behind the reserved area and to a page. -/
def areaStart (reservedAreaEnd : Nat) : Nat :=
  pageAlignUpLong (if map.base < reservedAreaEnd then reservedAreaEnd else map.base)

/-- The second bound after it was cut off at 32 bits and moved to a page. -/
def areaEnd : Nat :=
  let stop := (map.base + map.length) % longSize
  pageAlignDown (if stop > 0xFFFFFFFF then 0xFFFFFFFF else stop)

end MultibootMmap

/-- The loop over the modules. -/
def isInModule (address : Nat) : Bool :=
  (List.range info.modulesCount).any fun i =>
    let module := moduleAt memory info i
    pageAlignDown module.moduleStart ≤ address && address < pageAlignUp module.moduleEnd

/-- The loop over the pages of a region. -/
def markArea (areaEnd : Nat) : Nat → Nat → Bitmap → Option Bitmap
  | 0, _, _ => none
  | fuel + 1, areaStart, bitmap =>
    if areaStart < areaEnd - pageSize then
      markArea areaEnd fuel (areaStart + pageSize)
        (if isInModule memory info areaStart then bitmap else bitmap.markFree areaStart)
    else some bitmap

/-- What the loop over the map does with an entry. There are fewer rounds than pages. -/
def loadRegion (map : MultibootMmap) (bitmap : Bitmap) : Option Bitmap :=
  if map.type = 1 then
    if map.base > 0xFFFFFFFF then some bitmap
    else if map.areaEnd > map.areaStart reservedAreaEnd then
      markArea memory info map.areaEnd (wordSize / pageSize) (map.areaStart reservedAreaEnd) bitmap
    else some bitmap
  else some bitmap

def MultibootInformation.mapListEnd (info : MultibootInformation) : Nat :=
  wrap32 (info.memoryMapAddress + info.memoryMapLength)

def nextMap (map : Nat) : Nat := wrap32 (map + (mmapAt memory map).size + 4)

/-- The loop of `load` from an entry on. -/
def loadFrom : Nat → Nat → Bitmap → Option Bitmap
  | 0, _, _ => none
  | fuel + 1, map, bitmap =>
    if map < info.mapListEnd then do
      let bitmap ← loadRegion memory info reservedAreaEnd (mmapAt memory map) bitmap
      loadFrom fuel (nextMap memory map) bitmap
    else some bitmap

/-- `MultibootMmapInterpreter::load`. An address has 32 bits, so a walk that has made
`wordSize` rounds makes no end. -/
def load (bitmap : Bitmap) : Option Bitmap :=
  loadFrom memory info reservedAreaEnd (wordSize + 1) info.memoryMapAddress bitmap

/-- The entries that the walk along the memory map comes to. -/
inductive IsEntry : Nat → Prop
  | first (h : info.memoryMapAddress < info.mapListEnd) : IsEntry info.memoryMapAddress
  | next {map : Nat} (hMap : IsEntry map) (h : nextMap memory map < info.mapListEnd) :
      IsEntry (nextMap memory map)

/-- The page lies in the region, below 4 GiB, behind the reserved area, and no byte of it
belongs to a module. -/
structure Usable (map : MultibootMmap) (page : Nat) : Prop where
  type_eq : map.type = 1
  base_le : map.base ≤ page
  le_end : page + pageSize ≤ map.base + map.length
  below : page + pageSize ≤ wordSize
  reserved : reservedAreaEnd ≤ page
  modules : ∀ i < info.modulesCount, ∀ byte, page ≤ byte → byte < page + pageSize →
    ¬ ((moduleAt memory info i).moduleStart ≤ byte ∧ byte < (moduleAt memory info i).moduleEnd)

/-- The page lies in the region with a whole page of it behind, below 4 GiB, behind the
reserved area, and not between the bounds of a module as they are rounded to pages. -/
structure Covered (map : MultibootMmap) (page : Nat) : Prop where
  type_eq : map.type = 1
  base_le : map.base ≤ page
  behind : page + 2 * pageSize ≤ (map.base + map.length) % MultibootMmap.longSize
  below : page + 2 * pageSize < wordSize
  reserved : reservedAreaEnd ≤ page
  modules : isInModule memory info page = false

end Loading

section Pages

theorem lt_pageAlignDown_add (n : Nat) : n < pageAlignDown n + pageSize := by
  unfold pageAlignDown pageSize
  omega

theorem le_pageAlignUp {n : Nat} (h : n ≤ 0xFFFFF000) : n ≤ pageAlignUp n := by
  unfold pageAlignUp
  split
  · exact le_refl n
  · have hUp := lt_pageAlignDown_add n
    rw [wrap32_of_lt]
    · exact hUp.le
    · unfold pageAlignDown pageSize wordSize at *
      omega

variable {memory : Nat → UInt8} {info : MultibootInformation}

/-- A page that is not in a module has no byte of one. Pages begin at multiples of their
size, so the rounding of the bounds of the module does not matter. -/
theorem not_mem_module {page : Nat} (hPage : page % pageSize = 0)
    (hFree : isInModule memory info page = false)
    (hEnds : ∀ i < info.modulesCount, (moduleAt memory info i).moduleEnd ≤ 0xFFFFF000)
    {i : Nat} (hi : i < info.modulesCount) {byte : Nat} (hLow : page ≤ byte)
    (hHigh : byte < page + pageSize) :
    ¬ ((moduleAt memory info i).moduleStart ≤ byte ∧ byte < (moduleAt memory info i).moduleEnd) := by
  rintro ⟨hStart, hEnd⟩
  have hOutside := List.any_eq_false.mp hFree i (List.mem_range.mpr hi)
  simp only [Bool.and_eq_true, decide_eq_true_eq] at hOutside
  have hUp := le_pageAlignUp (hEnds i hi)
  have hDown : pageAlignDown (moduleAt memory info i).moduleStart ≤ page := by
    unfold pageAlignDown pageSize at *
    omega
  omega

/-- The loop over the pages ends and marks the pages between the bounds that are not in a
module, except for the last one. -/
theorem markArea_spec {areaStart areaEnd fuel : Nat} (bitmap : Bitmap)
    (hStart : areaStart % pageSize = 0) (hFuel : areaEnd ≤ areaStart + (fuel + 1) * pageSize) :
    ∃ bitmap', markArea memory info areaEnd (fuel + 1) areaStart bitmap = some bitmap' ∧
      ∀ page, page % pageSize = 0 → (bitmap'.IsFree page ↔ bitmap.IsFree page ∨
        areaStart ≤ page ∧ page + pageSize < areaEnd ∧ isInModule memory info page = false) := by
  have hStop : ¬ areaStart < areaEnd - pageSize → ∀ page, (bitmap.IsFree page ↔
      bitmap.IsFree page ∨
        areaStart ≤ page ∧ page + pageSize < areaEnd ∧ isInModule memory info page = false) := by
    intro hGo page
    rw [or_iff_left]
    rintro ⟨hLow, hHigh, -⟩
    omega
  induction fuel generalizing areaStart bitmap with
  | zero =>
    have hGo : ¬ areaStart < areaEnd - pageSize := by omega
    exact ⟨bitmap, by rw [markArea, if_neg hGo], fun page _ => hStop hGo page⟩
  | succ fuel ih =>
    rw [markArea]
    by_cases hGo : areaStart < areaEnd - pageSize
    · rw [if_pos hGo]
      have hNext : (areaStart + pageSize) % pageSize = 0 := by
        rw [Nat.add_mod_right, hStart]
      obtain ⟨bitmap', hRun, hPages⟩ := ih
        (if isInModule memory info areaStart then bitmap else bitmap.markFree areaStart) hNext
        (by rw [Nat.succ_mul] at hFuel; omega) (by intro hEnd page; rw [or_iff_left]; omega)
      refine ⟨bitmap', hRun, fun page hPage => ?_⟩
      have hSame : page / pageSize = areaStart / pageSize ↔ page = areaStart := by
        unfold pageSize at *
        omega
      have hMark : (if isInModule memory info areaStart then bitmap
          else bitmap.markFree areaStart).IsFree page ↔
          bitmap.IsFree page ∨ page = areaStart ∧ isInModule memory info page = false := by
        cases hModule : isInModule memory info areaStart with
        | true =>
          rw [if_pos rfl, or_iff_left]
          rintro ⟨rfl, hOut⟩
          rw [hModule] at hOut
          contradiction
        | false =>
          rw [if_neg (by decide), Bitmap.isFree_markFree, hSame, or_comm]
          exact or_congr_right ⟨fun hEq => ⟨hEq, hEq ▸ hModule⟩, And.left⟩
      have hBound : areaStart ≤ page ↔ page = areaStart ∨ areaStart + pageSize ≤ page := by
        unfold pageSize at *
        omega
      rw [hPages page hPage, hMark, or_assoc, hBound, or_and_right]
      apply or_congr_right
      apply or_congr_left
      apply and_congr_right
      rintro rfl
      exact ⟨fun h => ⟨by omega, h⟩, fun h => h.2⟩
    · rw [if_neg hGo]
      exact ⟨bitmap, rfl, fun page _ => hStop hGo page⟩

end Pages

namespace MultibootMmap

variable {map : MultibootMmap} {reservedAreaEnd page : Nat}

theorem areaEnd_le (map : MultibootMmap) : map.areaEnd ≤ 0xFFFFF000 := by
  unfold areaEnd pageAlignDown pageSize
  dsimp only
  split <;> omega

/-- A page is more than a page away from the end of the area if there is another whole page
of the region behind it. -/
theorem lt_areaEnd_iff (hPage : page % pageSize = 0) : page + pageSize < map.areaEnd ↔
      page + 2 * pageSize ≤ (map.base + map.length) % longSize ∧
        page + 2 * pageSize < wordSize := by
  unfold areaEnd pageAlignDown pageSize wordSize at *
  dsimp only
  split <;> omega

theorem pageAlignUpLong_mod (n : Nat) : pageAlignUpLong n % pageSize = 0 := by
  unfold pageAlignUpLong pageAlignDown pageSize longSize
  split <;> omega

theorem areaStart_le_iff (hPage : page % pageSize = 0)
    (hBase : map.base ≤ 0xFFFFFFFF) (hReserved : reservedAreaEnd < wordSize) :
    map.areaStart reservedAreaEnd ≤ page ↔ map.base ≤ page ∧ reservedAreaEnd ≤ page := by
  have hMax : (if map.base < reservedAreaEnd then reservedAreaEnd else map.base) =
      max map.base reservedAreaEnd := by
    split <;> omega
  rw [areaStart, hMax, ← max_le_iff]
  have hFits : max map.base reservedAreaEnd < wordSize := by
    unfold wordSize at *
    omega
  unfold pageAlignUpLong pageAlignDown pageSize longSize wordSize at *
  split <;> omega

end MultibootMmap

section Regions

variable {memory : Nat → UInt8} {info : MultibootInformation} {reservedAreaEnd fuel map : Nat}

/-- An entry of the map marks the pages of its region that have another one behind them. -/
theorem loadRegion_spec (hReserved : reservedAreaEnd < wordSize) (map : MultibootMmap)
    (bitmap : Bitmap) :
    ∃ bitmap', loadRegion memory info reservedAreaEnd map bitmap = some bitmap' ∧
      ∀ page, page % pageSize = 0 → (bitmap'.IsFree page ↔ bitmap.IsFree page ∨
        Covered memory info reservedAreaEnd map page) := by
  have hNone : (∀ page, page % pageSize = 0 → ¬ Covered memory info reservedAreaEnd map page) →
      ∃ bitmap', some bitmap = some bitmap' ∧ ∀ page, page % pageSize = 0 →
        (bitmap'.IsFree page ↔
          bitmap.IsFree page ∨ Covered memory info reservedAreaEnd map page) :=
    fun h => ⟨bitmap, rfl, fun page hPage => (or_iff_left (h page hPage)).symm⟩
  unfold loadRegion
  split
  case isFalse hType => exact hNone fun _ _ h => hType h.type_eq
  split
  case isTrue hBase =>
    refine hNone fun page _ h => ?_
    have hBelow := h.below
    have hLow := h.base_le
    unfold wordSize at hBelow
    omega
  rename_i hType hBase
  have hBounds : ∀ page, page % pageSize = 0 →
      (Covered memory info reservedAreaEnd map page ↔ map.areaStart reservedAreaEnd ≤ page ∧
        page + pageSize < map.areaEnd ∧ isInModule memory info page = false) := by
    intro page hPage
    rw [MultibootMmap.areaStart_le_iff hPage (Nat.not_lt.mp hBase) hReserved,
      MultibootMmap.lt_areaEnd_iff hPage]
    exact ⟨fun h => ⟨⟨h.base_le, h.reserved⟩, ⟨h.behind, h.below⟩, h.modules⟩,
      fun ⟨⟨hLow, hSpace⟩, ⟨hBehind, hBelow⟩, hModules⟩ =>
        ⟨hType, hLow, hBehind, hBelow, hSpace, hModules⟩⟩
  split
  case isFalse hArea =>
    refine hNone fun page hPage h => ?_
    obtain ⟨hLow, hHigh, -⟩ := (hBounds page hPage).mp h
    omega
  have hRounds : map.areaEnd ≤ map.areaStart reservedAreaEnd + (0xFFFFF + 1) * pageSize := by
    have hEnd := map.areaEnd_le
    unfold pageSize
    omega
  have hAligned : map.areaStart reservedAreaEnd % pageSize = 0 :=
    MultibootMmap.pageAlignUpLong_mod _
  obtain ⟨bitmap', hRun, hPages⟩ := @markArea_spec memory info _ _ _ bitmap hAligned hRounds
  exact ⟨bitmap', hRun, fun page hPage => by rw [hPages page hPage, hBounds page hPage]⟩

def Leads (memory : Nat → UInt8) (info : MultibootInformation) (map next : Nat) : Prop :=
  map < info.mapListEnd ∧ next = nextMap memory map

theorem isEntry_iff {entry : Nat} : IsEntry memory info entry ↔
    Relation.ReflTransGen (Leads memory info) info.memoryMapAddress entry ∧
      entry < info.mapListEnd := by
  constructor
  · intro hEntry
    induction hEntry with
    | first h => exact ⟨.refl, h⟩
    | next _ h ih => exact ⟨ih.1.tail ⟨ih.2, rfl⟩, h⟩
  · rintro ⟨hWalk, hEnd⟩
    induction hWalk with
    | refl => exact .first hEnd
    | tail _ hStep ih =>
      obtain ⟨hBefore, rfl⟩ := hStep
      exact .next (ih hBefore) hEnd

theorem exists_entry_iff (map : Nat) (P : Nat → Prop) :
    (∃ entry, Relation.ReflTransGen (Leads memory info) map entry ∧ entry < info.mapListEnd ∧
      P entry) ↔ map < info.mapListEnd ∧ (P map ∨ ∃ entry,
        Relation.ReflTransGen (Leads memory info) (nextMap memory map) entry ∧
          entry < info.mapListEnd ∧ P entry) := by
  constructor
  · rintro ⟨entry, hWalk, hEntry, h⟩
    rcases hWalk.cases_head with rfl | ⟨next, ⟨hMap, rfl⟩, hRest⟩
    · exact ⟨hEntry, .inl h⟩
    · exact ⟨hMap, .inr ⟨entry, hRest, hEntry, h⟩⟩
  · rintro ⟨hMap, h | ⟨entry, hWalk, hEntry, h⟩⟩
    · exact ⟨map, .refl, hMap, h⟩
    · exact ⟨entry, .head ⟨hMap, rfl⟩ hWalk, hEntry, h⟩

/-- A walk that ends in time marks what the entries on it mark. The induction is on the
rounds that are left. -/
theorem loadFrom_spec (hReserved : reservedAreaEnd < wordSize) (bitmap : Bitmap)
    (hEnds : ∃ n ≤ fuel, info.mapListEnd ≤ (nextMap memory)^[n] map) :
    ∃ bitmap', loadFrom memory info reservedAreaEnd (fuel + 1) map bitmap = some bitmap' ∧
      ∀ page, page % pageSize = 0 → (bitmap'.IsFree page ↔ bitmap.IsFree page ∨
        ∃ entry, Relation.ReflTransGen (Leads memory info) map entry ∧ entry < info.mapListEnd ∧
          Covered memory info reservedAreaEnd (mmapAt memory entry) page) := by
  obtain ⟨n, hLe, hEnd⟩ := hEnds
  induction fuel generalizing n map bitmap with
  | zero =>
    obtain rfl : n = 0 := by omega
    have hStop : ¬ map < info.mapListEnd := Nat.not_lt.mpr hEnd
    simp [loadFrom, exists_entry_iff map, hStop]
  | succ fuel ih =>
    simp only [exists_entry_iff map]
    rw [loadFrom]
    by_cases hGo : map < info.mapListEnd
    · obtain ⟨middle, hRegion, hFirst⟩ :=
        @loadRegion_spec memory info _ hReserved (mmapAt memory map) bitmap
      obtain ⟨m, rfl⟩ : ∃ m, n = m + 1 := by
        refine Nat.exists_eq_succ_of_ne_zero ?_
        rintro rfl
        exact absurd hGo (Nat.not_lt.mpr hEnd)
      obtain ⟨bitmap', hRun, hRest⟩ := ih middle m (by omega) hEnd
      rw [if_pos hGo, hRegion]
      refine ⟨bitmap', hRun, fun page hPage => ?_⟩
      rw [hRest page hPage, hFirst page hPage, or_assoc, and_iff_right hGo]
    · simp [hGo]

theorem ends_of_loadFrom {bitmap bitmap' : Bitmap}
    (h : loadFrom memory info reservedAreaEnd (fuel + 1) map bitmap = some bitmap') :
    ∃ n ≤ fuel, info.mapListEnd ≤ (nextMap memory)^[n] map := by
  induction fuel generalizing map bitmap with
  | zero =>
    by_cases hGo : map < info.mapListEnd
    · simp [loadFrom, hGo] at h
    · exact ⟨0, le_refl 0, Nat.not_lt.mp hGo⟩
  | succ fuel ih =>
    rw [loadFrom] at h
    by_cases hGo : map < info.mapListEnd
    · rw [if_pos hGo] at h
      obtain ⟨middle, -, hRun⟩ := Option.bind_eq_some_iff.mp h
      obtain ⟨n, hLe, hEnd⟩ := ih hRun
      exact ⟨n + 1, by omega, hEnd⟩
    · exact ⟨0, Nat.zero_le _, Nat.not_lt.mp hGo⟩

/-- Entries that lead forward bring the walk to its end. -/
theorem ends_of_forward
    (hSizes : ∀ map, IsEntry memory info map → map + (mmapAt memory map).size + 4 < wordSize)
    (hMap : map < info.mapListEnd → IsEntry memory info map)
    (hFuel : info.mapListEnd ≤ map + fuel) :
    ∃ n ≤ fuel, info.mapListEnd ≤ (nextMap memory)^[n] map := by
  induction fuel generalizing map with
  | zero => exact ⟨0, le_refl 0, hFuel⟩
  | succ fuel ih =>
    by_cases hGo : map < info.mapListEnd
    · have hNext : nextMap memory map = map + (mmapAt memory map).size + 4 :=
        wrap32_of_lt (hSizes map (hMap hGo))
      obtain ⟨n, hLe, hEnd⟩ := ih (.next (hMap hGo)) (by omega)
      exact ⟨n + 1, by omega, hEnd⟩
    · exact ⟨0, Nat.zero_le _, Nat.not_lt.mp hGo⟩

/-- What loading the map marks, if the walk along it ends. -/
theorem load_spec (hReserved : reservedAreaEnd < wordSize) (bitmap : Bitmap)
    (hEnds : ∃ n ≤ wordSize, info.mapListEnd ≤ (nextMap memory)^[n] info.memoryMapAddress) :
    ∃ bitmap', load memory info reservedAreaEnd bitmap = some bitmap' ∧
      ∀ page, page % pageSize = 0 → (bitmap'.IsFree page ↔ bitmap.IsFree page ∨
        ∃ entry, IsEntry memory info entry ∧
          Covered memory info reservedAreaEnd (mmapAt memory entry) page) := by
  simpa only [load, isEntry_iff, and_assoc] using loadFrom_spec hReserved bitmap hEnds

/-- With entries of the memory map that lead forward, modules that end at or below the last page
and any end of the reserved area, loading the map ends, and every page that it marks free lies in
one region of type 1 below 4 GiB, behind the reserved area, without a byte of a module. -/
theorem load_marks_usable (hReserved : reservedAreaEnd < wordSize)
    (hSizes : ∀ map, IsEntry memory info map → map + (mmapAt memory map).size + 4 < wordSize)
    (hEnds : ∀ i < info.modulesCount, (moduleAt memory info i).moduleEnd ≤ 0xFFFFF000)
    (bitmap : Bitmap) :
    ∃ bitmap', load memory info reservedAreaEnd bitmap = some bitmap' ∧
      ∀ page, page % pageSize = 0 → bitmap'.IsFree page → bitmap.IsFree page ∨
        ∃ entry, IsEntry memory info entry ∧
          Usable memory info reservedAreaEnd (mmapAt memory entry) page := by
  have hEnd := wrap32_lt (info.memoryMapAddress + info.memoryMapLength)
  obtain ⟨bitmap', hLoad, hPages⟩ := load_spec hReserved bitmap
    (ends_of_forward hSizes .first (by rw [MultibootInformation.mapListEnd]; omega))
  refine ⟨bitmap', hLoad, fun page hPage hFree => ((hPages page hPage).mp hFree).imp_right ?_⟩
  rintro ⟨entry, hEntry, hCovered⟩
  have hBehind := hCovered.behind.trans (Nat.mod_le _ _)
  have hBelow := hCovered.below
  refine ⟨entry, hEntry, hCovered.type_eq, hCovered.base_le, by omega, by omega,
    hCovered.reserved, ?_⟩
  exact fun i hi byte hFirst hLast =>
    not_mem_module hPage hCovered.modules hEnds hi hFirst hLast

/-- A page that an entry should make free: it lies completely in its region and below the
last page, behind the reserved area, and has no byte of a module. -/
def Wanted (memory : Nat → UInt8) (info : MultibootInformation) (reservedAreaEnd page : Nat) :
    Prop :=
  page % pageSize = 0 ∧ page + pageSize ≤ 0xFFFFF000 ∧ ∃ entry, IsEntry memory info entry ∧
    Usable memory info reservedAreaEnd (mmapAt memory entry) page

/-- Loading the map ends and leaves every usable page free if and only if the walk along the map
ends and each usable page that was not free lies in some region with another whole page behind it,
and no module is rounded to it. The last page of a region is lost. -/
theorem load_frees_wanted_iff (hReserved : reservedAreaEnd < wordSize) (bitmap : Bitmap) :
    (∃ bitmap', load memory info reservedAreaEnd bitmap = some bitmap' ∧
      ∀ page, Wanted memory info reservedAreaEnd page → bitmap'.IsFree page) ↔
    (∃ n ≤ wordSize, info.mapListEnd ≤ (nextMap memory)^[n] info.memoryMapAddress) ∧
      ∀ page, Wanted memory info reservedAreaEnd page → bitmap.IsFree page ∨
        ∃ entry, IsEntry memory info entry ∧
          Covered memory info reservedAreaEnd (mmapAt memory entry) page := by
  constructor
  · rintro ⟨bitmap', hLoad, hFree⟩
    have hEnds := ends_of_loadFrom hLoad
    obtain ⟨loaded, hLoaded, hPages⟩ := load_spec hReserved bitmap hEnds
    obtain rfl := Option.some.inj (hLoad.symm.trans hLoaded)
    exact ⟨hEnds, fun page hPage => (hPages page hPage.1).mp (hFree page hPage)⟩
  · rintro ⟨hEnds, hCovered⟩
    obtain ⟨bitmap', hLoad, hPages⟩ := load_spec hReserved bitmap hEnds
    exact ⟨bitmap', hLoad, fun page hPage => (hPages page hPage.1).mpr (hCovered page hPage)⟩

end Regions

/-- A map with one region of 16 KiB at 1 MiB, and a module in its third page. -/
def smallMemory (address : Nat) : UInt8 :=
  (wordBytes 20 ++ wordBytes 0x100000 ++ wordBytes 0 ++ wordBytes 0x4000 ++ wordBytes 0 ++
    wordBytes 1 ++ wordBytes 0x102000 ++ wordBytes 0x102800).getD (address - 0x9000) 0

@[inherit_doc smallMemory] def smallInfo : MultibootInformation := ⟨1, 0x9018, 24, 0x9000⟩

theorem eq_of_isEntry_small {map : Nat} (hMap : IsEntry smallMemory smallInfo map) :
    map = 0x9000 := by
  induction hMap with
  | first => rfl
  | next hMap h ih =>
    subst ih
    revert h
    decide

/-- The page behind the reserved area is marked free, and it lies in the region. -/
theorem load_marks_usable_small :
    ∃ bitmap, load smallMemory smallInfo 0x101000 Bitmap.zeroed = some bitmap ∧
      bitmap.IsFree 0x101000 ∧
      Usable smallMemory smallInfo 0x101000 (mmapAt smallMemory 0x9000) 0x101000 := by
  have hSizes : ∀ map, IsEntry smallMemory smallInfo map →
      map + (mmapAt smallMemory map).size + 4 < wordSize := by
    intro map hMap
    rw [eq_of_isEntry_small hMap]
    decide
  obtain ⟨bitmap, hLoad, hPages⟩ := @load_marks_usable smallMemory smallInfo 0x101000 (by decide)
    hSizes (by decide) Bitmap.zeroed
  have hFree : bitmap.IsFree 0x101000 := by
    have hComputed : (load smallMemory smallInfo 0x101000 Bitmap.zeroed).any
        (fun bitmap => bitmap.IsFree 0x101000) = true := by decide +kernel
    rw [hLoad] at hComputed
    simpa using hComputed
  refine ⟨bitmap, hLoad, hFree, ?_⟩
  rcases hPages 0x101000 (by decide) hFree with hOld | ⟨entry, hEntry, hUsable⟩
  · exact absurd hOld (by decide)
  · rw [eq_of_isEntry_small hEntry] at hUsable
    exact hUsable

/-- The last page of the region is usable and stays taken. -/
theorem load_loses_last_page : Wanted smallMemory smallInfo 0x101000 0x103000 ∧
      ∃ bitmap, load smallMemory smallInfo 0x101000 Bitmap.zeroed = some bitmap ∧
        ¬ bitmap.IsFree 0x103000 := by
  constructor
  · refine ⟨by decide, by decide, 0x9000, .first (by decide), ?_⟩
    refine ⟨by decide, by decide, by decide, by decide, by decide, ?_⟩
    intro i hi byte hLow hHigh hIn
    obtain rfl : i = 0 := Nat.lt_one_iff.mp hi
    have hEnd : (moduleAt smallMemory smallInfo 0).moduleEnd = 0x102800 := by decide
    omega
  · obtain ⟨bitmap, hLoad, hPages⟩ := @load_spec smallMemory smallInfo 0x101000 (by decide)
      Bitmap.zeroed ⟨1, by decide, by decide⟩
    refine ⟨bitmap, hLoad, fun hFree => ?_⟩
    rcases (hPages 0x103000 (by decide)).mp hFree with hOld | ⟨entry, hEntry, hCovered⟩
    · exact absurd hOld (by decide)
    · rw [eq_of_isEntry_small hEntry] at hCovered
      exact absurd hCovered.behind (by decide)

/-- Nothing is lost when the last page of the region was free before. -/
theorem load_frees_wanted_iff_small :
    ∃ bitmap, load smallMemory smallInfo 0x101000 (Bitmap.zeroed.markFree 0x103000) =
      some bitmap ∧ ∀ page, Wanted smallMemory smallInfo 0x101000 page → bitmap.IsFree page := by
  refine (load_frees_wanted_iff (by decide) _).mpr ⟨⟨1, by decide, by decide⟩, ?_⟩
  rintro page ⟨hAligned, -, entry, hEntry, hUsable⟩
  rw [eq_of_isEntry_small hEntry] at hUsable
  have hLow := hUsable.reserved
  have hHigh : page + 0x1000 ≤ 0x104000 := hUsable.le_end
  have hCases : page = 0x101000 ∨ page = 0x102000 ∨ page = 0x103000 := by
    unfold pageSize at hAligned
    omega
  rcases hCases with rfl | rfl | rfl
  · exact .inr ⟨0x9000, .first (by decide), by constructor <;> decide⟩
  · exact absurd ⟨by decide, by decide⟩
      (hUsable.modules 0 (by decide) 0x102000 (by decide) (by decide))
  · exact .inl (by decide)

end Loader
