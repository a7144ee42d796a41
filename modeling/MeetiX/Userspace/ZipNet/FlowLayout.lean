import Mathlib.Data.List.Chain
import MeetiX.Userspace.ZipNet.Canvas

/-! `FlowLayoutManager_t::layout`. The children stand in rows, next to each other; a child that
does not fit into its row opens the next one. -/
namespace ZipNet.FlowLayout

open List

structure Child where
  preferredSize : Dimension
  minimumSize : Dimension
  bounds : Rectangle

def Child.setBounds (c : Child) (newBounds : Rectangle) : Child :=
  { c with bounds := limitBounds c.minimumSize newBounds }

/-- The variables of the loop. -/
structure Position where
  x : Int
  y : Int
  lineHeight : Int

/-- An `int` is less. -/
def intEnd : Int := 2 ^ 31

/-- A sum of two `int`s has no value where it does not fit. -/
def add (a b : Int) : Option Int :=
  if -intEnd ≤ a + b ∧ a + b < intEnd then some (a + b) else none

def layoutFrom (width : Int) : Position → List Child → Option (List Child)
  | _, [] => some []
  | p, c :: rest => do
    let size := c.preferredSize
    let right ← add p.x size.width
    let p ← if right > width then (add p.y p.lineHeight).map fun y => ⟨0, y, 0⟩ else some p
    let c := c.setBounds ⟨p.x, p.y, size.width, size.height⟩
    let x ← add p.x size.width
    let lineHeight := if size.height > p.lineHeight then size.height else p.lineHeight
    (layoutFrom width ⟨x, p.y, lineHeight⟩ rest).map (c :: ·)

def layout (width : Int) (children : List Child) : Option (List Child) :=
  layoutFrom width ⟨0, 0, 0⟩ children

def Child.size (c : Child) : Dimension := ⟨c.bounds.width, c.bounds.height⟩

def Apart (a b : Rectangle) : Prop :=
  a.getRight ≤ b.x ∨ b.getRight ≤ a.x ∨ a.getBottom ≤ b.y ∨ b.getBottom ≤ a.y

/-- What is asked of a layout: the preferred sizes, no overlap, the reading order and the width
of the container. -/
structure Flows (width : Int) (children after : List Child) : Prop where
  size : after.map Child.size = children.map Child.preferredSize
  apart : after.Pairwise fun a b => Apart a.bounds b.bounds
  order : after.IsChain fun a b => b.bounds.y = a.bounds.y ∧ a.bounds.getRight ≤ b.bounds.x ∨
    b.bounds.x = 0 ∧ a.bounds.y ≤ b.bounds.y
  inside : ∀ c ∈ after, c.bounds.getRight ≤ width ∨ width < c.bounds.width

/-- Where a child of this width is put. -/
def Position.row (width : Int) (p : Position) (size : Dimension) : Position :=
  if p.x + size.width > width then ⟨0, p.y + p.lineHeight, 0⟩ else p

def Position.behind (p : Position) (size : Dimension) : Position :=
  ⟨p.x + size.width, p.y, if size.height > p.lineHeight then size.height else p.lineHeight⟩

/-- The rows of these sizes lead to no sum that is too large for an `int`. -/
def Fits (width : Int) : Position → List Dimension → Prop
  | _, [] => True
  | p, size :: rest => p.x + size.width < intEnd ∧ (p.row width size).y < intEnd ∧
    Fits width ((p.row width size).behind size) rest

/-- A child whose preferred size is not negative and which has no minimum size. -/
structure Child.Plain (c : Child) : Prop where
  width : 0 ≤ c.preferredSize.width ∧ c.preferredSize.width < intEnd
  height : 0 ≤ c.preferredSize.height ∧ c.preferredSize.height < intEnd
  minimumSize : c.minimumSize = ⟨0, 0⟩

structure Position.Valid (p : Position) : Prop where
  x : 0 ≤ p.x
  y : 0 ≤ p.y ∧ p.y < intEnd
  lineHeight : 0 ≤ p.lineHeight

/-- The rectangle is above the row of the position or in front of it in the row. -/
def Position.Passed (p : Position) (r : Rectangle) : Prop :=
  r.getBottom ≤ p.y ∨ r.y = p.y ∧ r.getRight ≤ p.x ∧ r.height ≤ p.lineHeight

section Rounds

variable {width : Int} {p : Position} {c : Child} {children rest : List Child}

theorem layoutFrom_cons (hp : p.Valid) (hc : c.Plain) : layoutFrom width p (c :: rest) =
      if p.x + c.preferredSize.width < intEnd ∧ (p.row width c.preferredSize).y < intEnd then
        (layoutFrom width ((p.row width c.preferredSize).behind c.preferredSize) rest).map
          ({ c with bounds := ⟨(p.row width c.preferredSize).x, (p.row width c.preferredSize).y,
            c.preferredSize.width, c.preferredSize.height⟩ } :: ·)
      else none := by
  obtain ⟨hx, ⟨hy, hLess⟩, hLine⟩ := hp
  obtain ⟨⟨hWidth, hSmall⟩, ⟨hHeight, -⟩, hMinimum⟩ := hc
  have hAdd : ∀ a b : Int, 0 ≤ a → 0 ≤ b → add a b = if a + b < intEnd then some (a + b) else none := by
    intro a b ha hb
    rw [add, if_congr (and_iff_right (by unfold intEnd; omega)) rfl rfl]
  simp only [layoutFrom, Position.row, Position.behind, Child.setBounds, limitBounds, hMinimum,
    not_lt.mpr hWidth, not_lt.mpr hHeight, if_false, hAdd _ _ hx hWidth, hAdd _ _ hy hLine]
  by_cases hSum : p.x + c.preferredSize.width < intEnd
  · by_cases hNew : p.x + c.preferredSize.width > width
    · by_cases hRow : p.y + p.lineHeight < intEnd
      · simp [hSum, hNew, hRow, hAdd, hWidth, hSmall]
      · simp [hSum, hNew, hRow]
    · simp [hSum, hNew, hLess, hAdd, hx, hWidth]
  · simp [hSum]

theorem Position.Valid.next (hp : p.Valid) (hc : c.Plain)
    (hRow : (p.row width c.preferredSize).y < intEnd) :
    ((p.row width c.preferredSize).behind c.preferredSize).Valid := by
  obtain ⟨hx, ⟨hy, -⟩, hLine⟩ := hp
  obtain ⟨⟨hWidth, -⟩, ⟨hHeight, -⟩, -⟩ := hc
  refine ⟨?_, ⟨?_, hRow⟩, ?_⟩ <;> grind [Position.behind, Position.row]

/-- What was passed stays so, and the child does not overlap it and is passed in turn. -/
theorem Position.Passed.next {r : Rectangle} (h : p.Passed r) (hp : p.Valid) (hc : c.Plain) :
    Apart r ⟨(p.row width c.preferredSize).x, (p.row width c.preferredSize).y,
      c.preferredSize.width, c.preferredSize.height⟩ ∧
    ((p.row width c.preferredSize).behind c.preferredSize).Passed r := by
  obtain ⟨⟨hWidth, -⟩, ⟨hHeight, -⟩, -⟩ := hc
  have hLine := hp.lineHeight
  unfold Passed at h ⊢
  unfold Apart Position.behind Position.row Rectangle.getBottom at *
  split_ifs <;> dsimp only at * <;> omega

/-- The children behind a position, and how the first of them follows it. -/
structure Laid (width : Int) (p : Position) (children after : List Child) : Prop
    extends Flows width children after where
  passed : ∀ r, p.Passed r → ∀ c ∈ after, Apart r c.bounds
  head : ∀ c ∈ after.head?, c.bounds.y = p.y ∧ c.bounds.x = p.x ∨ c.bounds.x = 0 ∧ p.y ≤ c.bounds.y

/-- The children are laid out in rows just if no sum is too large for an `int`. -/
theorem layoutFrom_spec (hp : p.Valid) (hPlain : ∀ c ∈ children, c.Plain) :
    (Fits width p (children.map Child.preferredSize) →
      ∃ after, layoutFrom width p children = some after ∧ Laid width p children after) ∧
    (¬Fits width p (children.map Child.preferredSize) → layoutFrom width p children = none) := by
  induction children generalizing p with
  | nil => exact ⟨fun _ => ⟨[], rfl, ⟨rfl, .nil, .nil, by simp⟩, by simp, by simp⟩, fun hNot => absurd trivial hNot⟩
  | cons c rest ih =>
    obtain ⟨hc, hRest⟩ := forall_mem_cons.mp hPlain
    rw [layoutFrom_cons hp hc, map_cons, Fits, ← and_assoc]
    by_cases hSums : p.x + c.preferredSize.width < intEnd ∧ (p.row width c.preferredSize).y < intEnd
    · obtain ⟨hSome, hNone⟩ := ih (hp.next hc hSums.2) hRest
      rw [if_pos hSums, and_iff_right hSums]
      refine ⟨fun hFits => ?_, fun hNot => by rw [hNone hNot, Option.map_none]⟩
      obtain ⟨after, hAfter, hLaid⟩ := hSome hFits
      refine ⟨_, by rw [hAfter, Option.map_some], ⟨?_, ?_, ?_, ?_⟩, ?_, ?_⟩
      · rw [map_cons, map_cons, hLaid.size]
        rfl
      · refine pairwise_cons.mpr ⟨hLaid.passed _ (.inr ⟨rfl, le_refl _, ?_⟩), hLaid.apart⟩
        unfold Position.behind
        dsimp only
        split_ifs <;> omega
      · exact isChain_cons.mpr ⟨fun next hNext => (hLaid.head next hNext).imp_left
          (And.imp_right Eq.ge), hLaid.order⟩
      · refine forall_mem_cons.mpr ⟨?_, hLaid.inside⟩
        unfold Position.row Rectangle.getRight
        split_ifs <;> dsimp only <;> omega
      · intro r hPassed
        obtain ⟨hApart, hLater⟩ := hPassed.next hp hc
        exact forall_mem_cons.mpr ⟨hApart, hLaid.passed r hLater⟩
      · rintro _ ⟨⟩
        have hLine := hp.lineHeight
        unfold Position.row
        split_ifs <;> dsimp only <;> omega
    · rw [if_neg hSums]
      exact ⟨fun hBoth => absurd hBoth.1 hSums, fun _ => rfl⟩

end Rounds

/-- Children whose preferred sizes are not negative are laid out as asked for just if no sum is
too large. -/
theorem layout_flows_iff (width : Int) (children : List Child) (hPlain : ∀ c ∈ children, c.Plain) :
    (∃ after, layout width children = some after ∧ Flows width children after) ↔
      Fits width ⟨0, 0, 0⟩ (children.map Child.preferredSize) := by
  have hStart : Position.Valid ⟨0, 0, 0⟩ := ⟨le_refl _, ⟨le_refl _, by decide⟩, le_refl _⟩
  obtain ⟨hSome, hNone⟩ := @layoutFrom_spec width _ children hStart hPlain
  constructor
  · rintro ⟨after, hAfter, -⟩
    by_contra hNot
    rw [layout, hNone hNot] at hAfter
    cases hAfter
  · intro hFits
    obtain ⟨after, hAfter, hLaid⟩ := hSome hFits
    exact ⟨after, hAfter, hLaid.toFlows⟩

def unplaced (width height : Int) : Child := ⟨⟨width, height⟩, ⟨0, 0⟩, ⟨0, 0, 0, 0⟩⟩

/-- The second of two children opens a row. -/
theorem layout_flows_iff_two_rows : ∃ after,
    layout 100 [unplaced 60 10, unplaced 60 20] = some after ∧
      Flows 100 [unplaced 60 10, unplaced 60 20] after := by
  refine (layout_flows_iff 100 _ ?_).mpr ?_
  · simp only [forall_mem_cons, not_mem_nil, false_imp_iff, forall_true_iff, and_true]
    exact ⟨⟨by decide, by decide, rfl⟩, ⟨by decide, by decide, rfl⟩⟩
  · exact ⟨by decide, by decide, by decide, by decide, trivial⟩

/-- Behind a child of the largest width there is no position for another one. -/
theorem layout_overflows : layout 100 [unplaced (2 ^ 31 - 1) 1, unplaced 1 1] = none := by
  decide

end ZipNet.FlowLayout
