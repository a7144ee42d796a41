import Mathlib.Data.List.Count
import Mathlib.Data.Fin.VecNotation
import MeetiX.Base.Run
import MeetiX.Userspace.ZipNet.Screen

/-! The pointer of the window server: which component is dragged, which one the pointer is over,
and which events they get for the states of the mouse. A component is a number. -/
namespace ZipNet.Pointer

open Base List

abbrev Buttons := Fin 3 → Bool

def screen : Nat := 0

def multiclickTimespan : Nat := 250

/-- What is sent out. A press, a release and a move go to the screen. -/
inductive Event where
  | press (clickCount : Nat)
  | focusLost (component : Nat)
  | focusGained (component : Nat)
  | dragRelease (component : Nat)
  | release
  | leave (component : Nat)
  | enter (component : Nat)
  | drag (component : Nat)
  | move
deriving DecidableEq

structure Cursor where
  position : Point
  pressedButtons : Buttons
  draggedComponent : Option Nat
  hoveredComponent : Option Nat
  focusedComponent : Option Nat
  lastClick : Nat
  clickCount : Nat

/-- The next state of the mouse and the time. What `getComponentAt` finds and who accepts the
focus depends on the components, which may change with each event. The background accepts what
nobody else does. -/
structure MouseState where
  nextPosition : Point
  nextPressedButtons : Buttons
  millis : Nat
  componentAt : Nat
  acceptor : Nat

def presses (previous next : Buttons) : Prop := ∃ b, previous b = false ∧ next b = true

instance (previous next : Buttons) : Decidable (presses previous next) :=
  inferInstanceAs (Decidable (∃ _, _))

/-- The component under the pointer is dragged from now on, unless it is the screen, and it gets
the focus. -/
def press (i : MouseState) (c : Cursor) : List Event × Cursor :=
  let clickCount := if i.millis - c.lastClick < multiclickTimespan then c.clickCount + 1 else 1
  let dragged := if i.componentAt ≠ screen then some i.componentAt else c.draggedComponent
  let next := { c with
    draggedComponent := dragged, lastClick := i.millis, clickCount := clickCount }
  if some i.componentAt ≠ c.focusedComponent then
    (.press clickCount :: ((c.focusedComponent.map Event.focusLost).toList ++
      [.focusGained i.componentAt]), { next with focusedComponent := some i.acceptor })
  else ([.press clickCount], next)

def release (c : Cursor) : List Event × Cursor :=
  ((c.draggedComponent.map Event.dragRelease).toList ++ [.release], { c with draggedComponent := none })

/-- The component under the pointer is compared with the one the pointer was over only while
another component than this one is dragged. -/
def hover (hovered : Nat) (c : Cursor) : List Event × Cursor :=
  if some hovered ≠ c.hoveredComponent ∧
      (c.draggedComponent ≠ none ∧ c.draggedComponent ≠ c.hoveredComponent) then
    match c.hoveredComponent with
    | some old => ([.leave old], { c with hoveredComponent := none })
    | none => ([.enter hovered], { c with hoveredComponent := some hovered })
  else ([], c)

def move (i : MouseState) (c : Cursor) : List Event × Cursor :=
  let (events, next) := hover i.componentAt c
  (events ++ [next.draggedComponent.elim .move Event.drag], next)

def Cursor.at (c : Cursor) (i : MouseState) : Cursor :=
  { c with position := i.nextPosition, pressedButtons := i.nextPressedButtons }

def processMouseState (i : MouseState) (c : Cursor) : List Event × Cursor :=
  if presses c.pressedButtons i.nextPressedButtons then press i (c.at i)
  else if presses i.nextPressedButtons c.pressedButtons then release (c.at i)
  else if i.nextPosition ≠ c.position then move i (c.at i)
  else ([], c.at i)

/-- The component that the pointer is over according to the events, if leaving follows entering
and both name the same component. -/
def follow : Option Nat → List Event → Option (Option Nat)
  | hovered, [] => some hovered
  | hovered, .enter a :: events => if hovered = none then follow (some a) events else none
  | hovered, .leave a :: events => if hovered = some a then follow none events else none
  | hovered, _ :: events => follow hovered events

/-- What a state of the mouse does to the dragging: a press takes a component, a release without a
press gives it back, and everything else leaves it as it is. -/
inductive Drags (i : MouseState) (c : Cursor) (result : List Event × Cursor) : Prop where
  | press (h : presses c.pressedButtons i.nextPressedButtons)
      (hDragged : result.2.draggedComponent =
        if i.componentAt ≠ screen then some i.componentAt else c.draggedComponent)
      (hEvents : ∀ a, result.1.count (.dragRelease a) = 0 ∧ .drag a ∉ result.1)
  | release (hPress : ¬presses c.pressedButtons i.nextPressedButtons)
      (hDragged : result.2.draggedComponent = none)
      (hEvents : ∀ a, result.1.count (.dragRelease a) =
        (if c.draggedComponent = some a then 1 else 0) ∧ .drag a ∉ result.1)
  | steady (hSame : i.nextPressedButtons = c.pressedButtons)
      (hDragged : result.2.draggedComponent = c.draggedComponent)
      (hEvents : ∀ a, result.1.count (.dragRelease a) = 0 ∧
        (.drag a ∈ result.1 → c.draggedComponent = some a))

section Step

variable (i : MouseState) (c : Cursor)

theorem press_spec (h : presses c.pressedButtons i.nextPressedButtons) :
    (press i (c.at i)).2.pressedButtons = i.nextPressedButtons ∧
    follow c.hoveredComponent (press i (c.at i)).1 = some (press i (c.at i)).2.hoveredComponent ∧
    Drags i c (press i (c.at i)) := by
  unfold press
  dsimp only
  split_ifs
  all_goals
    refine ⟨rfl, ?_, .press h (by simp_all [Cursor.at]) fun a => ?_⟩
  all_goals cases hFocused : (c.at i).focusedComponent <;> simp [follow, Cursor.at]

theorem hover_spec (hovered : Nat) : ∃ other,
    (hover hovered c).2 = { c with hoveredComponent := other } ∧
    (∀ events, follow c.hoveredComponent ((hover hovered c).1 ++ events) = follow other events) ∧
    ∀ a, (hover hovered c).1.count (.dragRelease a) = 0 ∧ .drag a ∉ (hover hovered c).1 := by
  unfold hover
  split
  · split
    · rename_i old hOld
      exact ⟨none, rfl, by simp [follow, hOld], by simp⟩
    · rename_i hOld
      exact ⟨some hovered, rfl, by simp [follow, hOld], by simp⟩
  · exact ⟨c.hoveredComponent, rfl, by simp, by simp⟩

theorem move_spec (hSame : i.nextPressedButtons = c.pressedButtons) :
    (move i (c.at i)).2.pressedButtons = i.nextPressedButtons ∧
    follow c.hoveredComponent (move i (c.at i)).1 = some (move i (c.at i)).2.hoveredComponent ∧
    Drags i c (move i (c.at i)) := by
  obtain ⟨other, hCursor, hFollow, hEvents⟩ := hover_spec (c.at i) i.componentAt
  have hMove : move i (c.at i) = ((hover i.componentAt (c.at i)).1 ++
      [c.draggedComponent.elim .move Event.drag], { c.at i with hoveredComponent := other }) := by
    unfold move
    dsimp only
    rw [hCursor]
    rfl
  rw [hMove]
  refine ⟨rfl, (hFollow _).trans ?_, .steady hSame rfl fun a => ?_⟩
  · cases c.draggedComponent <;> rfl
  · rw [count_append, (hEvents a).1, mem_append]
    cases c.draggedComponent <;> simp [(hEvents a).2, eq_comm]

theorem processMouseState_spec : (processMouseState i c).2.pressedButtons = i.nextPressedButtons ∧
    follow c.hoveredComponent (processMouseState i c).1 =
      some (processMouseState i c).2.hoveredComponent ∧
    Drags i c (processMouseState i c) := by
  have hSame (hPress : ¬presses c.pressedButtons i.nextPressedButtons)
      (hRelease : ¬presses i.nextPressedButtons c.pressedButtons) :
      i.nextPressedButtons = c.pressedButtons := by
    funext b
    cases hOld : c.pressedButtons b with
    | false => exact Bool.eq_false_iff.mpr fun hNew => hPress ⟨b, hOld, hNew⟩
    | true => exact Bool.not_eq_false _ ▸ fun hNew => hRelease ⟨b, hNew, hOld⟩
  unfold processMouseState
  split_ifs with hPress hRelease hMove
  · exact press_spec i c hPress
  · refine ⟨rfl, ?_, .release hPress rfl fun a => ?_⟩
    all_goals
      simp only [release, Cursor.at]
      cases c.draggedComponent <;> simp [follow, count_cons]
  · exact move_spec i c (hSame hPress hRelease)
  · exact ⟨rfl, rfl, .steady (hSame hPress hRelease) rfl (by simp)⟩

end Step

/-- A run as it is seen from outside: all events so far, the component on which each of the buttons
that are down was pressed, and the components that were dragged, one after another. -/
structure Watch where
  cursor : Cursor
  events : List Event
  pressedOn : Fin 3 → Option Nat
  grabs : List Nat

namespace Watch

def new (position : Point) : Watch :=
  -- `loadCursor` focuses the screen, which does not exist yet
  ⟨⟨position, fun _ => false, none, none, none, 0, 0⟩, [], fun _ => none, []⟩

def next (w : Watch) (i : MouseState) : Watch :=
  let result := processMouseState i w.cursor
  { cursor := result.2
    events := w.events ++ result.1
    pressedOn := fun b => if i.nextPressedButtons b then
      if w.cursor.pressedButtons b then w.pressedOn b else some i.componentAt else none
    grabs := if result.2.draggedComponent = w.cursor.draggedComponent then w.grabs
      else w.grabs ++ result.2.draggedComponent.toList }

end Watch

section Drag

variable {i : MouseState} {w v : Watch}

/-- A press that happens during a drag is on the dragged component, or it is on the screen and no
button is released with it. -/
def Calm (c : Cursor) (i : MouseState) : Prop :=
  ∀ a, c.draggedComponent = some a → presses c.pressedButtons i.nextPressedButtons →
    i.componentAt = a ∨ (i.componentAt = screen ∧ ¬presses i.nextPressedButtons c.pressedButtons)

structure CalmStep (w : Watch) (i : MouseState) (v : Watch) : Prop where
  next : w.next i = v
  calm : Calm w.cursor i

/-- Each component that was dragged has got its release, apart from the one that is dragged, and
the button that was pressed on this one is still down. -/
structure Paired (w : Watch) : Prop where
  count : ∀ a, w.grabs.count a =
    w.events.count (.dragRelease a) + if w.cursor.draggedComponent = some a then 1 else 0
  held : ∀ a, w.cursor.draggedComponent = some a →
    ∃ b, w.cursor.pressedButtons b = true ∧ w.pressedOn b = some a

theorem pressedOn_of_still {b : Fin 3} (hOld : w.cursor.pressedButtons b = true)
    (hNew : i.nextPressedButtons b = true) : (w.next i).pressedOn b = w.pressedOn b := by
  simp [Watch.next, hNew, hOld]

/-- The dragging goes on. -/
theorem Paired.of_same (h : Paired w)
    (hDragged : (processMouseState i w.cursor).2.draggedComponent = w.cursor.draggedComponent)
    (hEvents : ∀ a, (processMouseState i w.cursor).1.count (.dragRelease a) = 0)
    (hHeld : ∀ a, w.cursor.draggedComponent = some a →
      ∃ b, i.nextPressedButtons b = true ∧ (w.next i).pressedOn b = some a) : Paired (w.next i) := by
  refine ⟨fun a => ?_, fun a ha => ?_⟩
  · have hBefore := h.count a
    simpa [Watch.next, hDragged, hEvents] using hBefore
  · have hButtons := (processMouseState_spec i w.cursor).1
    simp only [Watch.next, hDragged] at ha
    obtain ⟨b, hDown, hOn⟩ := hHeld a ha
    exact ⟨b, by simpa [Watch.next, hButtons] using hDown, hOn⟩

/-- The step lemma, by what the state of the mouse does to the dragging. -/
theorem CalmStep.paired (hStep : CalmStep w i v) (h : Paired w) : Paired v := by
  obtain ⟨rfl, hCalm⟩ := hStep
  obtain ⟨hButtons, -, hDrags⟩ := processMouseState_spec i w.cursor
  cases hDrags with
  | press hPress hDragged hEvents =>
    have hFresh : ∃ b, i.nextPressedButtons b = true ∧ (w.next i).pressedOn b = some i.componentAt := by
      obtain ⟨b, hUp, hDown⟩ := hPress
      exact ⟨b, hDown, by simp [Watch.next, hUp, hDown]⟩
    cases hOld : w.cursor.draggedComponent with
    | some a =>
      refine h.of_same (hDragged.trans ?_) (fun a => (hEvents a).1) fun b hb => ?_
      · rcases hCalm a hOld hPress with rfl | ⟨hScreen, -⟩
        · simp [hOld]
        · simp [hScreen]
      · obtain rfl : a = b := Option.some.inj (hOld.symm.trans hb)
        rcases hCalm a hOld hPress with rfl | ⟨-, hNoRelease⟩
        · exact hFresh
        · obtain ⟨b, hDown, hOn⟩ := h.held a hOld
          have hStill : i.nextPressedButtons b = true :=
            (Bool.not_eq_false _).mp fun hUp => hNoRelease ⟨b, hUp, hDown⟩
          exact ⟨b, hStill, (pressedOn_of_still hDown hStill).trans hOn⟩
    | none =>
      by_cases hScreen : i.componentAt = screen
      · refine h.of_same (by simp [hDragged, hScreen]) (fun a => (hEvents a).1) fun a ha => ?_
        rw [hOld] at ha
        cases ha
      · rw [if_pos hScreen] at hDragged
        refine ⟨fun a => ?_, fun a ha => ?_⟩
        · have hBefore := h.count a
          simp [Watch.next, hDragged, hOld, hEvents, count_cons] at hBefore ⊢
          omega
        · simp only [Watch.next, hDragged, Option.some.injEq] at ha
          obtain ⟨b, hDown, hOn⟩ := hFresh
          exact ⟨b, by simpa [Watch.next, hButtons] using hDown, ha ▸ hOn⟩
  | release hPress hDragged hEvents =>
    refine ⟨fun a => ?_, fun a ha => ?_⟩
    · have hBefore := h.count a
      simp only [Watch.next, hDragged, Option.toList_none, append_nil, ite_self,
        count_append, hEvents]
      simpa using hBefore
    · simp [Watch.next, hDragged] at ha
  | steady hSame hDragged hEvents =>
    refine h.of_same hDragged (fun a => (hEvents a).1) fun a ha => ?_
    obtain ⟨b, hDown, hOn⟩ := h.held a ha
    exact ⟨b, hSame ▸ hDown, (pressedOn_of_still hDown (hSame ▸ hDown)).trans hOn⟩

/-- While no other component is pressed during a drag, each dragged component gets one release, at
the latest when all buttons are up, and drags go only to the component on which a button that is
still down was pressed. -/
theorem drags_are_paired {position : Point} {inputs : List MouseState}
    (run : Run CalmStep (Watch.new position) inputs w) :
    (∀ a, w.grabs.count a =
      w.events.count (.dragRelease a) + if w.cursor.draggedComponent = some a then 1 else 0) ∧
    ((∀ b, w.cursor.pressedButtons b = false) → w.cursor.draggedComponent = none) ∧
    ∀ i a, .drag a ∈ (processMouseState i w.cursor).1 →
      ∃ b, i.nextPressedButtons b = true ∧ (w.next i).pressedOn b = some a := by
  have hPaired : Paired w :=
    run.invariant ⟨fun _ => rfl, nofun⟩ fun _ _ _ h hStep => hStep.paired h
  refine ⟨hPaired.count, fun hUp => ?_, fun i a hDrag => ?_⟩
  · rw [Option.eq_none_iff_forall_ne_some]
    intro a ha
    obtain ⟨b, hDown, -⟩ := hPaired.held a ha
    rw [hUp] at hDown
    cases hDown
  · cases (processMouseState_spec i w.cursor).2.2 with
    | press _ _ hEvents => exact absurd hDrag (hEvents a).2
    | release _ _ hEvents => exact absurd hDrag (hEvents a).2
    | steady hSame _ hEvents =>
      obtain ⟨b, hDown, hOn⟩ := hPaired.held a ((hEvents a).2 hDrag)
      exact ⟨b, hSame ▸ hDown, (pressedOn_of_still hDown (hSame ▸ hDown)).trans hOn⟩

end Drag

def home : Point := ⟨0, 0⟩

def mouseAt (x : Int) (first second : Bool) (componentAt : Nat) : MouseState :=
  ⟨⟨x, 0⟩, ![first, second, false], 1000, componentAt, componentAt⟩

/-- A component is dragged and released. -/
theorem drags_are_paired_once :
    ([mouseAt 0 true false 1, mouseAt 1 true false 1, mouseAt 1 false false 1].foldl Watch.next
      (Watch.new home)).events.count (.dragRelease 1) = 1 := by
  have hRun : Run CalmStep (Watch.new home)
      [mouseAt 0 true false 1, mouseAt 1 true false 1, mouseAt 1 false false 1] _ :=
    .snoc (.snoc (.snoc (.nil _) ⟨rfl, nofun⟩) ⟨rfl, fun _ _ h => absurd h (by decide)⟩)
      ⟨rfl, fun _ _ h => absurd h (by decide)⟩
  have hCount := (drags_are_paired hRun).1 1
  revert hCount
  decide

/-- The second button is pressed on another component while the first one is dragged: the first
one gets no release. -/
theorem drag_without_release :
    let w := [mouseAt 0 true false 1, mouseAt 0 true true 2, mouseAt 0 false false 2].foldl
      Watch.next (Watch.new home)
    w.grabs = [1, 2] ∧ w.cursor.draggedComponent = none ∧ w.events.count (.dragRelease 1) = 0 := by
  decide

section Hover

variable {i : MouseState} {w v : Watch}

theorem follow_append {hovered middle : Option Nat} {first second : List Event}
    (h : follow hovered first = some middle) :
    follow hovered (first ++ second) = follow middle second := by
  fun_induction follow hovered first with
  | case1 => cases h; rfl
  | case2 a events ih => simpa [follow] using ih h
  | case3 hovered a events hNot => cases h
  | case4 a events ih => simpa [follow] using ih h
  | case5 hovered a events hNot => cases h
  | case6 hovered event events hEnter hLeave ih => simpa [follow] using ih h

/-- What holds in every run: the events say which component the pointer is over, and nothing is
dragged without a button. -/
structure Tracked (w : Watch) : Prop where
  follow : follow none w.events = some w.cursor.hoveredComponent
  held : w.cursor.draggedComponent ≠ none → ∃ b, w.cursor.pressedButtons b = true

theorem Tracked.next (h : Tracked w) (i : MouseState) : Tracked (w.next i) := by
  obtain ⟨hButtons, hFollow, hDrags⟩ := processMouseState_spec i w.cursor
  refine ⟨(follow_append h.follow).trans hFollow, fun hDragged => ?_⟩
  change ∃ b, (processMouseState i w.cursor).2.pressedButtons b = true
  rw [hButtons]
  cases hDrags with
  | press hPress =>
    obtain ⟨b, -, hDown⟩ := hPress
    exact ⟨b, hDown⟩
  | release _ hNone => exact absurd hNone hDragged
  | steady hSame hKept =>
    rw [hSame]
    exact h.held (hKept ▸ hDragged)

/-- The pointer moves inside of a component and no button is down. -/
structure MovesInside (a : Nat) (w : Watch) (i : MouseState) (v : Watch) : Prop where
  next : w.next i = v
  before : ∀ b, w.cursor.pressedButtons b = false
  after : ∀ b, i.nextPressedButtons b = false
  moved : i.nextPosition ≠ w.cursor.position
  inside : i.componentAt = a

theorem MovesInside.hovered {a : Nat} (hMove : MovesInside a w i v) (h : Tracked w) :
    v.cursor.hoveredComponent = w.cursor.hoveredComponent := by
  obtain ⟨rfl, hBefore, hAfter, -⟩ := hMove
  have hDragged : w.cursor.draggedComponent = none := by
    by_contra hSome
    obtain ⟨b, hDown⟩ := h.held hSome
    rw [hBefore] at hDown
    cases hDown
  have hNot : ¬presses w.cursor.pressedButtons i.nextPressedButtons ∧
      ¬presses i.nextPressedButtons w.cursor.pressedButtons := by
    simp [presses, hBefore, hAfter]
  simp only [Watch.next, processMouseState, if_neg hNot.1, if_neg hNot.2]
  split_ifs
  · simp [move, hover, Cursor.at, hDragged]
  · rfl

theorem enter_mem_of_follow {hovered : Option Nat} {events : List Event} {a : Nat}
    (h : follow hovered events = some (some a)) : hovered = some a ∨ .enter a ∈ events := by
  fun_induction follow hovered events with
  | case1 => exact .inl (Option.some.inj h)
  | case2 b events ih =>
    rcases ih h with hSame | hMem
    · cases hSame
      exact .inr (mem_cons_self ..)
    · exact .inr (mem_cons_of_mem _ hMem)
  | case3 hovered b events hNot => cases h
  | case4 b events ih => exact .inr (mem_cons_of_mem _ ((ih h).resolve_left nofun))
  | case5 hovered b events hNot => cases h
  | case6 hovered event events hEnter hLeave ih => exact (ih h).imp_right (mem_cons_of_mem _)

/-- Entering and leaving alternate, and both go to the same component. A component in which the
pointer moves without a button is the one that the pointer is over just if it was before. -/
theorem hovered_iff {position : Point} {inputs moves : List MouseState} {a : Nat}
    (run : Run (fun w i v => w.next i = v) (Watch.new position) inputs w)
    (hMoves : Run (MovesInside a) w moves v) :
    follow none v.events = some v.cursor.hoveredComponent ∧
    (v.cursor.hoveredComponent = some a ∧ .enter a ∈ v.events ↔
      w.cursor.hoveredComponent = some a) := by
  have hBefore : Tracked w := by
    have hStart : Tracked (Watch.new position) := ⟨rfl, absurd rfl⟩
    exact run.invariant hStart fun w i v h hStep => hStep ▸ h.next i
  have hAfter : Tracked v ∧ v.cursor.hoveredComponent = w.cursor.hoveredComponent := by
    clear run
    induction hMoves with
    | nil => exact ⟨hBefore, rfl⟩
    | snoc prior last ih => exact ⟨last.next ▸ ih.1.next _, (last.hovered ih.1).trans ih.2⟩
  refine ⟨hAfter.1.follow, fun h => hAfter.2 ▸ h.1, fun h => ?_⟩
  have hSame := hAfter.2.trans h
  have hFollow := hAfter.1.follow
  rw [hSame] at hFollow
  exact ⟨hSame, (enter_mem_of_follow hFollow).resolve_left nofun⟩

end Hover

/-- A component that was entered during a drag is still the one after it. -/
theorem hovered_iff_entered :
    let w := [mouseAt 0 true false 1, mouseAt 1 true false 2, mouseAt 1 false false 2].foldl
      Watch.next (Watch.new home)
    ((w.next (mouseAt 2 false false 2)).next (mouseAt 3 false false 2)).cursor.hoveredComponent =
      some 2 := by
  intro w
  have hRun : Run (fun w i v => w.next i = v) (Watch.new home)
      [mouseAt 0 true false 1, mouseAt 1 true false 2, mouseAt 1 false false 2] w :=
    .snoc (.snoc (.snoc (.nil _) rfl) rfl) rfl
  have hMoves : Run (MovesInside 2) w [mouseAt 2 false false 2, mouseAt 3 false false 2]
      ((w.next (mouseAt 2 false false 2)).next (mouseAt 3 false false 2)) := by
    refine .snoc (.snoc (.nil _) ⟨rfl, ?_, ?_, ?_, rfl⟩) ⟨rfl, ?_, ?_, ?_, rfl⟩
    all_goals decide
  exact ((hovered_iff hRun hMoves).2.mpr (by decide)).1

/-- The pointer moves into a component and on inside of it, but the component is not entered. -/
theorem hovered_without_enter : let w := Watch.new home
    let v := (w.next (mouseAt 1 false false 1)).next (mouseAt 2 false false 1)
    Run (MovesInside 1) w [mouseAt 1 false false 1, mouseAt 2 false false 1] v ∧
      v.cursor.hoveredComponent = none ∧ .enter 1 ∉ v.events := by
  refine ⟨.snoc (.snoc (.nil _) ⟨rfl, ?_, ?_, ?_, rfl⟩) ⟨rfl, ?_, ?_, ?_, rfl⟩, ?_, ?_⟩
  all_goals decide

end ZipNet.Pointer
