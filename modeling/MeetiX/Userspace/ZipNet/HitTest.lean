import Mathlib.Data.List.Nodup
import MeetiX.Userspace.ZipNet.Screen

/-! Which component is under the pointer. `handle` offers a mouse event to the visible components
at the point, the front ones and their children first; `getComponentAt`, which finds the component
for the focus and for drags, does not ask whether it is visible. Which points a rectangle contains
is left to the user library: `contains` is any relation. -/
namespace ZipNet

open List

structure Component where
  id : Nat
  bounds : Rectangle
  visible : Bool
deriving DecidableEq

/-- The children of a component, each with its own ones. The last one is in front. -/
inductive Children
  | empty
  | push (behind : Children) (child : Component) (children : Children)

/-- The point as the child sees it. -/
def Point.inside (p : Point) (child : Component) : Point :=
  ⟨p.x - child.bounds.x, p.y - child.bounds.y⟩

namespace Children

variable (contains : Rectangle → Point → Bool) {self : Nat} {children : Children} {p : Point}

/-- The loop goes from the last child to the first. -/
def getComponentAt (self : Nat) : Children → Point → Nat
  | .empty, _ => self
  | .push behind child children, p =>
    if contains child.bounds p then children.getComponentAt child.id (p.inside child)
    else behind.getComponentAt self p

/-- A component comes after its children, unless one of them or its own class takes the event. -/
def offer (takes : Nat → Bool) (self : Nat) (offered : List Nat × Bool) : List Nat × Bool :=
  if takes self then ([self], true)
  else if offered.2 then offered
  else (offered.1 ++ [self], false)

/-- The loop over the children of a component: who is offered the event, in this order, and whether
it has been consumed. -/
def handle (takes : Nat → Bool) : Children → Point → List Nat × Bool
  | .empty, _ => ([], false)
  | .push behind child children, p =>
    let first :=
      if child.visible ∧ contains child.bounds p then
        offer takes child.id (children.handle takes (p.inside child))
      else ([], false)
    if first.2 then first
    else
      let rest := behind.handle takes p
      (first.1 ++ rest.1, rest.2)

/-- The components that an event is offered to when nobody consumes it. -/
def offered (self : Nat) (children : Children) (p : Point) : List Nat :=
  (offer (fun _ => false) self (children.handle contains (fun _ => false) p)).1

def ids : Children → List Nat
  | .empty => []
  | .push behind child children => (child.id :: children.ids) ++ behind.ids

/-- The components that are visible and not below an invisible one. -/
def shown : Children → List Nat
  | .empty => []
  | .push behind child children =>
    (if child.visible then child.id :: children.shown else []) ++ behind.shown

/-- On the way down, the front child at the point is always a visible one. -/
def Unhidden : Children → Point → Prop
  | .empty, _ => True
  | .push behind child children, p =>
    if contains child.bounds p then child.visible = true ∧ children.Unhidden (p.inside child)
    else behind.Unhidden p

variable {contains}

theorem offered_empty : offered contains self .empty p = [self] := by
  simp [offered, offer, handle]

theorem handle_not_consumed (children : Children) (p : Point) :
    (children.handle contains (fun _ => false) p).2 = false := by
  induction children generalizing p with
  | empty => rfl
  | push behind child children ihBehind ihChildren =>
    simp only [handle, offer, ihBehind, ihChildren, Bool.false_eq_true, if_false]
    split <;> simp

theorem offered_push (behind : Children) (child : Component) :
    offered contains self (.push behind child children) p =
      (if child.visible ∧ contains child.bounds p then
        offered contains child.id children (p.inside child)
        else []) ++ offered contains self behind p := by
  simp only [offered, handle, offer, handle_not_consumed, Bool.false_eq_true, if_false]
  split <;> simp

theorem shown_subset_ids (children : Children) : children.shown ⊆ children.ids := by
  induction children with
  | empty => simp [shown]
  | push behind child children ihBehind ihChildren =>
    intro id hMem
    simp only [shown, ids, mem_append] at hMem ⊢
    refine hMem.imp (fun hShown => ?_) fun hShown => ihBehind hShown
    split at hShown
    · exact (mem_cons.mp hShown).elim (fun hEq => by simp [hEq]) fun hIn =>
        mem_cons_of_mem _ (ihChildren hIn)
    · cases hShown

theorem offered_subset_shown (self : Nat) (children : Children) (p : Point) :
    offered contains self children p ⊆ self :: children.shown := by
  induction children generalizing self p with
  | empty => simp [offered_empty]
  | push behind child children ihBehind ihChildren =>
    intro id hMem
    rw [offered_push] at hMem
    simp only [shown, mem_append, mem_cons] at hMem ⊢
    rcases hMem with hChild | hBehind
    · split at hChild
      · next hSeen =>
          have := ihChildren child.id (p.inside child) hChild
          exact .inr (.inl (by simpa [hSeen.1] using this))
      · cases hChild
    · have := ihBehind self p hBehind
      exact (mem_cons.mp this).imp_right .inr

variable (contains) in
theorem getComponentAt_mem (self : Nat) (children : Children) (p : Point) :
    children.getComponentAt contains self p ∈ self :: children.ids := by
  induction children generalizing self p with
  | empty => simp [getComponentAt]
  | push behind child children ihBehind ihChildren =>
    simp only [getComponentAt, ids, mem_cons, mem_append]
    split
    · exact .inr (.inl (mem_cons.mp (ihChildren child.id _)))
    · exact (mem_cons.mp (ihBehind self p)).imp_right .inr

/-- As long as nothing invisible is in the way, both walks go down the same way. -/
theorem Unhidden.head_offered (h : children.Unhidden contains p) (self : Nat) :
    (offered contains self children p).head? = some (children.getComponentAt contains self p) := by
  induction children generalizing self p with
  | empty => simp [offered_empty, getComponentAt]
  | push behind child children ihBehind ihChildren =>
    rw [offered_push, getComponentAt]
    unfold Unhidden at h
    split at h
    · next hContains => simp [hContains, h.1, head?_append, ihChildren h.2]
    · next hContains => simp [hContains, ihBehind h]

/-- What is found is shown only if there is no hidden child on the way down. -/
theorem Unhidden.of_shown (hIds : (self :: children.ids).Nodup)
    (h : children.getComponentAt contains self p ∈ self :: children.shown) :
    children.Unhidden contains p := by
  induction children generalizing self p with
  | empty => trivial
  | push behind child children ihBehind ihChildren =>
    simp only [ids, nodup_cons, nodup_append, mem_append, not_or] at hIds
    obtain ⟨⟨hSelf, hNotBehind⟩, hChild, hBehind, hApart⟩ := hIds
    rw [getComponentAt] at h
    unfold Unhidden
    split
    · next hContains =>
        rw [if_pos hContains] at h
        -- the component found is the child or below it, so it is shown only if the child is
        have hBelow := getComponentAt_mem contains child.id children (p.inside child)
        have hShown : child.visible = true ∧
            children.getComponentAt contains child.id (p.inside child) ∈
              child.id :: children.shown := by
          rcases mem_cons.mp h with hEq | hMem
          · exact absurd (hEq ▸ hBelow) hSelf
          · rcases mem_append.mp hMem with hMem | hMem
            · split at hMem
              · next hVisible => exact ⟨hVisible, hMem⟩
              · cases hMem
            · exact absurd rfl (hApart _ hBelow _ (shown_subset_ids behind hMem))
        exact ⟨hShown.1, ihChildren (nodup_cons.mpr hChild) hShown.2⟩
    · next hContains =>
        rw [if_neg hContains] at h
        refine ihBehind (nodup_cons.mpr ⟨hNotBehind, hBehind⟩) ?_
        rcases mem_cons.mp (getComponentAt_mem contains self behind p) with hEq | hIn
        · simp [hEq]
        · refine (mem_cons.mp h).elim (fun hEq => by simp [hEq]) fun hMem => ?_
          rcases mem_append.mp hMem with hMem | hMem
          · split at hMem
            · have hOther := cons_subset_cons child.id (shown_subset_ids children) hMem
              exact absurd rfl (hApart _ hOther _ hIn)
            · cases hMem
          · exact mem_cons_of_mem _ hMem

/-- The component that gets the focus is the first one that an event at this point is offered to,
and one that is shown, as long as no invisible component is in front on the way down. -/
theorem focused_first_offered_iff (hIds : (self :: children.ids).Nodup) :
    (offered contains self children p).head? = some (children.getComponentAt contains self p) ∧
      children.getComponentAt contains self p ∈ self :: children.shown ↔
        children.Unhidden contains p := by
  constructor
  · rintro ⟨-, hShown⟩
    exact .of_shown hIds hShown
  · intro h
    have hHead := h.head_offered self
    exact ⟨hHead, offered_subset_shown self children p (mem_of_mem_head? hHead)⟩

theorem focused_first_offered_button :
    let contains (r : Rectangle) (p : Point) : Bool := r.contains p
    let button : Component := ⟨2, ⟨1, 1, 5, 5⟩, true⟩
    let window : Component := ⟨1, ⟨0, 0, 10, 10⟩, true⟩
    let children := Children.empty.push window (Children.empty.push button .empty)
    (offered contains 0 children ⟨3, 3⟩).head? = some (children.getComponentAt contains 0 ⟨3, 3⟩) ∧
      children.getComponentAt contains 0 ⟨3, 3⟩ ∈ 0 :: children.shown := by
  intro contains button window children
  refine (focused_first_offered_iff (by decide)).mpr ?_
  simp [contains, children, button, window, Unhidden, Rectangle.contains, Rectangle.getLeft,
    Rectangle.getRight, Rectangle.getTop, Rectangle.getBottom, Point.inside]

/-- An invisible window gets the focus of the one behind it. -/
theorem invisible_window_focused : let contains (r : Rectangle) (p : Point) : Bool := r.contains p
    let window : Component := ⟨1, ⟨0, 0, 10, 10⟩, true⟩
    let hidden : Component := ⟨2, ⟨0, 0, 10, 10⟩, false⟩
    let children := (Children.empty.push window .empty).push hidden .empty
    children.getComponentAt contains 0 ⟨3, 3⟩ = 2 ∧ offered contains 0 children ⟨3, 3⟩ = [1, 0] ∧
      2 ∉ 0 :: children.shown := by
  decide

end Children

end ZipNet
