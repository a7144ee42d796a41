import Mathlib.Data.List.Basic
import Mathlib.Algebra.Order.Ring.Int
import Mathlib.Data.List.Induction

/-! The screen of the window server and the part of it that has to be copied to the video
output. -/
namespace ZipNet

structure Point where
  x : Int
  y : Int
deriving DecidableEq

structure Rectangle where
  x : Int
  y : Int
  width : Int
  height : Int
deriving DecidableEq

namespace Rectangle

variable (r : Rectangle)

def getLeft : Int := r.x

def getTop : Int := r.y

def getRight : Int := r.x + r.width

def getBottom : Int := r.y + r.height

/-- The left and the upper edge are inside. There is no point in a rectangle without a size or
with a negative one. -/
def contains (p : Point) : Prop :=
  r.getLeft ≤ p.x ∧ p.x < r.getRight ∧ r.getTop ≤ p.y ∧ p.y < r.getBottom

instance (r : Rectangle) (p : Point) : Decidable (r.contains p) :=
  inferInstanceAs (Decidable (_ ∧ _ ∧ _ ∧ _))

end Rectangle

structure Screen where
  bounds : Rectangle
  invalid : Rectangle

namespace Screen

/-- The smallest rectangle around the invalid area and another one. -/
def merged (invalid rect : Rectangle) : Rectangle :=
  let top := if rect.getTop < invalid.getTop then rect.getTop else invalid.getTop
  let left := if rect.getLeft < invalid.getLeft then rect.getLeft else invalid.getLeft
  let bottom := if rect.getBottom > invalid.getBottom then rect.getBottom else invalid.getBottom
  let right := if rect.getRight > invalid.getRight then rect.getRight else invalid.getRight
  ⟨left, top, right - left, bottom - top⟩

/-- An edge in front of the screen moves to its border. -/
def fixStart (start size : Int) : Int × Int :=
  if start < 0 then (0, size + start) else (start, size)

def fixSize (limit start size : Int) : Int :=
  if start + size > limit then limit - start else size

def fixed (bounds invalid : Rectangle) : Rectangle :=
  let (x, width) := fixStart invalid.x invalid.width
  let (y, height) := fixStart invalid.y invalid.height
  ⟨x, y, fixSize bounds.width x width, fixSize bounds.height y height⟩

/-- The rectangle with four zeros stands for an area without points. -/
def markDirty (s : Screen) (rect : Rectangle) : Screen :=
  let area := if s.invalid = ⟨0, 0, 0, 0⟩ then rect else merged s.invalid rect
  { s with invalid := fixed s.bounds area }

def grabInvalid (s : Screen) : Rectangle × Screen :=
  (s.invalid, { s with invalid := ⟨0, 0, 0, 0⟩ })

def OnScreen (s : Screen) (p : Point) : Prop :=
  0 ≤ p.x ∧ p.x < s.bounds.width ∧ 0 ≤ p.y ∧ p.y < s.bounds.height

variable {s : Screen} {rect : Rectangle} {p : Point}

theorem contains_merged {invalid : Rectangle} (h : rect.contains p ∨ invalid.contains p) :
    (merged invalid rect).contains p := by
  unfold Rectangle.contains merged Rectangle.getLeft Rectangle.getRight Rectangle.getTop
    Rectangle.getBottom at *
  dsimp only
  split_ifs <;> omega

theorem fixed_span (limit start size n : Int) : ((fixStart start size).1 ≤ n ∧
      n < (fixStart start size).1 + fixSize limit (fixStart start size).1 (fixStart start size).2) ↔
    (start ≤ n ∧ n < start + size) ∧ 0 ≤ n ∧ n < limit := by
  unfold fixStart fixSize
  split_ifs <;> dsimp only at * <;> omega

/-- What is left of an area are its points on the screen. -/
theorem contains_fixed {area : Rectangle} :
    (fixed s.bounds area).contains p ↔ area.contains p ∧ s.OnScreen p := by
  have hx := fixed_span s.bounds.width area.x area.width p.x
  have hy := fixed_span s.bounds.height area.y area.height p.y
  simp only [Rectangle.contains, fixed, OnScreen, Rectangle.getLeft, Rectangle.getRight,
    Rectangle.getTop, Rectangle.getBottom]
  rw [← and_assoc, hx, hy]
  constructor
  · rintro ⟨⟨⟨hLeft, hRight⟩, hScreen⟩, ⟨hTop, hBottom⟩, hScreen'⟩
    exact ⟨⟨hLeft, hRight, hTop, hBottom⟩, hScreen.1, hScreen.2, hScreen'⟩
  · rintro ⟨⟨hLeft, hRight, hTop, hBottom⟩, hScreen, hWidth, hScreen'⟩
    exact ⟨⟨⟨hLeft, hRight⟩, hScreen, hWidth⟩, ⟨hTop, hBottom⟩, hScreen'⟩

theorem markDirty_contains (hOn : s.OnScreen p) (h : rect.contains p ∨ s.invalid.contains p) :
    (s.markDirty rect).invalid.contains p := by
  refine contains_fixed.mpr ⟨?_, hOn⟩
  split_ifs with hEmpty
  · refine h.resolve_right fun hInvalid => ?_
    rw [hEmpty] at hInvalid
    simp only [Rectangle.contains, Rectangle.getLeft, Rectangle.getRight] at hInvalid
    omega
  · exact contains_merged h

/-- After any calls of `markDirty` the invalid area has every point of the screen that one of the
rectangles has, and no point beside the screen. -/
theorem markDirty_covers (s : Screen) (rects : List Rectangle) :
    (∀ rect ∈ rects, ∀ p, s.OnScreen p → rect.contains p →
      (rects.foldl markDirty s.grabInvalid.2).invalid.contains p) ∧
    ∀ p, (rects.foldl markDirty s.grabInvalid.2).invalid.contains p → s.OnScreen p := by
  induction rects using List.reverseRecOn with
  | nil =>
    refine ⟨nofun, fun p h => ?_⟩
    simp only [List.foldl_nil, grabInvalid, Rectangle.contains, Rectangle.getLeft,
      Rectangle.getRight] at h
    omega
  | append_singleton rects rect ih =>
    have hBounds : (rects.foldl markDirty s.grabInvalid.2).bounds = s.bounds := by
      clear ih
      induction rects using List.reverseRecOn with
      | nil => rfl
      | append_singleton rects rect ih => rwa [List.foldl_append]
    have hOn : ∀ p, (rects.foldl markDirty s.grabInvalid.2).OnScreen p ↔ s.OnScreen p := by
      intro p
      unfold OnScreen
      rw [hBounds]
    rw [List.foldl_append, List.foldl_cons, List.foldl_nil]
    refine ⟨fun other hOther p hScreen hPoint => ?_, fun p h => (hOn p).mp (contains_fixed.mp h).2⟩
    refine markDirty_contains ((hOn p).mpr hScreen) ?_
    rcases List.mem_append.mp hOther with hBefore | hLast
    · exact .inr (ih.1 other hBefore p hScreen hPoint)
    · exact .inl (List.mem_singleton.mp hLast ▸ hPoint)

end Screen

end ZipNet
