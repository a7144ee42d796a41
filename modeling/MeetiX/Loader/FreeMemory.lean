import MeetiX.Loader.MultibootMmap

/-! Where the loader puts the descriptor table and the page bitmap. The candidate is moved while
the pages behind it are still being looked at, so a pass that has met a boot module is only good
for the next candidate. -/
namespace Loader

open Kernel Kernel.Ramdisk List

section Search

variable (memory : Nat → UInt8) (info : MultibootInformation)

/-- The first module of the list with the position in its pages. -/
def moduleOver (pos : Nat) : Option MultibootModule :=
  ((range info.modulesCount).map (moduleAt memory info)).find? fun module =>
    pageAlignDown module.moduleStart ≤ pos && pos < pageAlignUp module.moduleEnd

/-- The loop over the required pages, with the candidate and `notWithinModule`. -/
def scanPages : List Nat → Nat → Bool → Nat × Bool
  | [], location, notWithinModule => (location, notWithinModule)
  | i :: pages, location, notWithinModule =>
    match moduleOver memory info (wrap32 (location + i * pageSize)) with
    | some module => scanPages pages (pageAlignUp module.moduleEnd) false
    | none => scanPages pages location notWithinModule

/-- The passes from a candidate on. There is no result if the search panics, or if it has made no
end after the given number of passes. -/
def findFrom (count : Nat) : Nat → Nat → Option Nat
  | 0, _ => none
  | passes + 1, location =>
    if location < 0xFFFFFFFF then
      match scanPages memory info (range count) location true with
      | (location, true) => some location
      | (location, false) => findFrom count passes (wrap32 (location + pageSize))
    else none

def findFreeMemory (start count : Nat) : Option Nat :=
  findFrom memory info count (wordSize / pageSize) start

def bitmapSize : Nat := 1024 * 1024

/-- The areas that `EvaLoader::initialize` sets aside. -/
structure Areas where
  gdtAreaStart : Nat
  gdtAreaEnd : Nat
  bitmapStart : Nat
  bitmapEnd : Nat

/-- The part of `EvaLoader::initialize` that places them. -/
def placeAreas (loaderEndAddress : Nat) : Option Areas := do
  let gdtAreaStart ← findFreeMemory memory info loaderEndAddress 1
  let gdtAreaEnd := wrap32 (gdtAreaStart + pageSize)
  let bitmapStart ← findFreeMemory memory info gdtAreaEnd (pageAlignUp bitmapSize / pageSize)
  return ⟨gdtAreaStart, gdtAreaEnd, bitmapStart, pageAlignUp (wrap32 (bitmapStart + bitmapSize))⟩

/-- One page more than asked for fits below 4 GiB, behind the start and behind every module. -/
def Fits (start count : Nat) : Prop :=
  start + (count + 1) * pageSize ≤ wordSize ∧
    ∀ i < info.modulesCount, (moduleAt memory info i).moduleEnd + (count + 1) * pageSize ≤ wordSize

/-- Pages at or behind the start of which no byte belongs to a module. -/
structure Found (start count location : Nat) : Prop where
  aligned : location % pageSize = 0
  start_le : start ≤ location
  below : location + count * pageSize ≤ wordSize
  apart : ∀ i < info.modulesCount, ∀ byte, location ≤ byte → byte < location + count * pageSize →
    ¬ ((moduleAt memory info i).moduleStart ≤ byte ∧ byte < (moduleAt memory info i).moduleEnd)

end Search

variable {memory : Nat → UInt8} {info : MultibootInformation} {start count location : Nat}

theorem isInModule_eq (pos : Nat) :
    isInModule memory info pos = (moduleOver memory info pos).isSome := by
  unfold isInModule moduleOver
  rw [Bool.eq_iff_iff]
  simp

section

variable
  (hEnds : ∀ i < info.modulesCount, (moduleAt memory info i).moduleEnd + (count + 1) *
    pageSize ≤ wordSize)

include hEnds

theorem moduleOver_some {pos : Nat} {module : MultibootModule}
    (h : moduleOver memory info pos = some module) :
    pos < pageAlignUp module.moduleEnd ∧
      pageAlignUp module.moduleEnd + (count + 1) * pageSize ≤ wordSize := by
  have hOver := find?_some h
  obtain ⟨i, hi, rfl⟩ := mem_map.mp (mem_of_find?_eq_some h)
  have hEnd := hEnds i (mem_range.mp hi)
  rw [Bool.and_eq_true, decide_eq_true_eq, decide_eq_true_eq] at hOver
  refine ⟨hOver.2, ?_⟩
  unfold pageAlignUp wrap32 pageAlignDown pageSize wordSize at *
  split <;> omega

/-- A pass ends at its candidate if no page is in a module, and at the end of a module behind the
candidate otherwise. -/
theorem scanPages_spec {pages : List Nat} {notWithinModule : Bool}
    (hPages : ∀ i ∈ pages, i < count) (hAligned : location % pageSize = 0)
    (hRoom : location + count * pageSize ≤ wordSize) {found : Nat} {result : Bool}
    (h : scanPages memory info pages location notWithinModule = (found, result)) :
    (result = notWithinModule ∧ found = location ∧
      ∀ i ∈ pages, isInModule memory info (location + i * pageSize) = false) ∨
    (result = false ∧ location < found ∧ found % pageSize = 0 ∧
      found + (count + 1) * pageSize ≤ wordSize) := by
  induction pages generalizing location notWithinModule with
  | nil =>
    cases h
    exact .inl ⟨rfl, rfl, nofun⟩
  | cons i pages ih =>
    have hRest : ∀ j ∈ pages, j < count := fun j hj => hPages j (mem_cons_of_mem i hj)
    have hPos : wrap32 (location + i * pageSize) = location + i * pageSize := by
      have hi := hPages i (mem_cons_self ..)
      apply wrap32_of_lt
      unfold pageSize at *
      omega
    rw [scanPages, hPos] at h
    cases hOver : moduleOver memory info (location + i * pageSize) with
    | none =>
      rw [hOver] at h
      refine (ih hRest hAligned hRoom h).imp_left fun ⟨hResult, hFound, hFree⟩ =>
        ⟨hResult, hFound, fun j hj => ?_⟩
      rcases mem_cons.mp hj with rfl | hj
      · rw [isInModule_eq, hOver]
        rfl
      · exact hFree j hj
    | some module =>
      rw [hOver] at h
      obtain ⟨hBehind, hLeaves⟩ := moduleOver_some hEnds hOver
      have hUp := pageAlignUp_mod module.moduleEnd
      have hNext : pageAlignUp module.moduleEnd + count * pageSize ≤ wordSize := by
        rw [Nat.succ_mul] at hLeaves
        omega
      rcases ih hRest hUp hNext h with ⟨rfl, rfl, -⟩ | ⟨rfl, hLess, hFound⟩
      · exact .inr ⟨rfl, by omega, hUp, hLeaves⟩
      · exact .inr ⟨rfl, by omega, hFound⟩

/-- The candidate only moves up, and so the search comes to its end. -/
theorem findFrom_spec {passes : Nat}
    (hAligned : location % pageSize = 0) (hPage : location + pageSize ≤ wordSize)
    (hRoom : location + count * pageSize ≤ wordSize)
    (hPasses : wordSize ≤ location + passes * pageSize) :
    ∃ found, findFrom memory info count passes location = some found ∧ found % pageSize = 0 ∧
      location ≤ found ∧ found + count * pageSize ≤ wordSize ∧
      ∀ i < count, isInModule memory info (found + i * pageSize) = false := by
  induction passes generalizing location with
  | zero =>
    unfold pageSize at *
    omega
  | succ passes ih =>
    have hBelow : location < 0xFFFFFFFF := by
      unfold pageSize wordSize at *
      omega
    rw [findFrom, if_pos hBelow]
    obtain ⟨⟨found, result⟩, hScan⟩ : ∃ scan, scanPages memory info (range count) location true =
      scan := ⟨_, rfl⟩
    rw [hScan]
    rcases scanPages_spec hEnds (fun i hi => mem_range.mp hi) hAligned hRoom hScan with
      ⟨rfl, rfl, hFree⟩ | ⟨rfl, hLess, hMod, hLeaves⟩
    · exact ⟨found, rfl, hAligned, le_refl _, hRoom, fun i hi => hFree i (mem_range.mpr hi)⟩
    · have hPos : 0 < count := by
        rw [Nat.pos_iff_ne_zero]
        rintro rfl
        cases hScan
      have hWrap : wrap32 (found + pageSize) = found + pageSize := by
        apply wrap32_of_lt
        unfold pageSize at *
        omega
      have hNext : (found + pageSize) % pageSize = 0 := by rw [Nat.add_mod_right, hMod]
      obtain ⟨last, hRun, hLast, hLe, hFree⟩ := ih hNext
        (by unfold pageSize at *; omega) (by unfold pageSize at *; omega)
        (by unfold pageSize at *; omega)
      exact ⟨last, (congrArg (findFrom memory info count passes) hWrap).trans hRun, hLast, by omega,
        hFree⟩

end

theorem findFreeMemory_spec (hAligned : start % pageSize = 0) (hFits : Fits memory info start count) :
    ∃ location, findFreeMemory memory info start count = some location ∧
      Found memory info start count location := by
  have hSpace := hFits.1
  rw [Nat.succ_mul] at hSpace
  have hPasses : wordSize ≤ start + wordSize / pageSize * pageSize := by
    exact Nat.le_add_left ..
  obtain ⟨location, hRun, hLocation, hStart, hRoom, hFree⟩ :=
    findFrom_spec hFits.2 hAligned (by omega) (by omega) hPasses
  refine ⟨location, hRun, hLocation, hStart, hRoom, fun i hi byte hLow hHigh => ?_⟩
  have hEnds : ∀ i < info.modulesCount, (moduleAt memory info i).moduleEnd ≤ 0xFFFFF000 := by
    intro i hi
    have hEnd := hFits.2 i hi
    unfold pageSize wordSize at hEnd
    omega
  -- the page of the byte is one of those that were looked at
  have hPage := Nat.div_add_mod (byte - location) pageSize
  have hOffset := Nat.mod_lt (byte - location) (by decide : 0 < pageSize)
  rw [Nat.mul_comm] at hPage
  refine not_mem_module ?_ (hFree ((byte - location) / pageSize) ?_) hEnds hi ?_ ?_
  · rw [Nat.add_mul_mod_self_right, hLocation]
  · rw [Nat.div_lt_iff_lt_mul (by decide)]
    omega
  · omega
  · omega

/-- The search comes to its end and finds pages without a module. So neither the descriptor table
nor the bitmap is on a module, and they are not on each other. -/
theorem findFreeMemory_apart (memory : Nat → UInt8) (info : MultibootInformation) :
    (∀ start count, start % pageSize = 0 → Fits memory info start count →
      ∃ location, findFreeMemory memory info start count = some location ∧
        Found memory info start count location) ∧
    ∀ loaderEnd, loaderEnd % pageSize = 0 → Fits memory info loaderEnd 1 →
      (∀ gdtAreaStart, findFreeMemory memory info loaderEnd 1 = some gdtAreaStart →
        Fits memory info (gdtAreaStart + pageSize) (bitmapSize / pageSize)) →
      ∃ areas, placeAreas memory info loaderEnd = some areas ∧
        Found memory info loaderEnd 1 areas.gdtAreaStart ∧
        Found memory info (areas.gdtAreaStart + pageSize) (bitmapSize / pageSize)
          areas.bitmapStart := by
  refine ⟨fun start count => findFreeMemory_spec, fun loaderEnd hAligned hFits hNext => ?_⟩
  obtain ⟨gdt, hGdt, hFound⟩ := findFreeMemory_spec hAligned hFits
  have hSecond := hNext gdt hGdt
  have hWrap : wrap32 (gdt + pageSize) = gdt + pageSize := by
    have hRoom := hSecond.1
    apply wrap32_of_lt
    unfold pageSize at *
    omega
  have hEnd : (gdt + pageSize) % pageSize = 0 := by rw [Nat.add_mod_right, hFound.aligned]
  obtain ⟨bitmap, hBitmap, hBehind⟩ := findFreeMemory_spec hEnd hSecond
  have hCount : pageAlignUp bitmapSize / pageSize = bitmapSize / pageSize := by decide
  refine ⟨⟨gdt, gdt + pageSize, bitmap, pageAlignUp (wrap32 (bitmap + bitmapSize))⟩, ?_, hFound,
    hBehind⟩
  simp only [placeAreas, hGdt, Option.bind_eq_bind, Option.bind_some, hWrap, hCount, hBitmap]
  rfl

/-- Two modules on the same page, where the loader ends in front of them. -/
def twoModules : Nat → UInt8 := fun address =>
  (wordBytes 0x101800 ++ wordBytes 0x102345 ++ wordBytes 0 ++ wordBytes 0 ++ wordBytes 0x100000 ++
    wordBytes 0x101700).getD address 0

theorem findFreeMemory_apart_two :
    ∃ areas, placeAreas twoModules ⟨2, 0, 0, 0⟩ 0x100000 = some areas ∧
      Found twoModules ⟨2, 0, 0, 0⟩ 0x100000 1 areas.gdtAreaStart ∧
      Found twoModules ⟨2, 0, 0, 0⟩ (areas.gdtAreaStart + pageSize) (bitmapSize / pageSize)
        areas.bitmapStart := by
  refine (findFreeMemory_apart twoModules ⟨2, 0, 0, 0⟩).2 0x100000 (by decide) ?_ ?_
  · exact ⟨by decide, by decide⟩
  · have hFound : findFreeMemory twoModules ⟨2, 0, 0, 0⟩ 0x100000 1 = some 0x103000 := by
      decide +kernel
    rw [hFound]
    rintro _ ⟨⟩
    exact ⟨by decide, by decide⟩

end Loader
