import Mathlib.Data.Int.Init
import MeetiX.Base.Run

/-! The registry of components: one map of all components, and one for each process that has
created some. A component is added for the process of the thread that asks; it is removed for the
thread itself, as if this were a process. -/
namespace ZipNet.ComponentRegistry

open Base Function

structure Registry where
  components : Int → Option Nat
  componentsByProcess : Int → Option (Int → Option Nat)
  nextID : Int

inductive Request
  /-- A component of a type that the server does not know is not made. -/
  | createComponent (sender : Int) (component : Option Nat)
  | removeComponent (sender id : Int)

namespace Registry

def initial : Registry := ⟨fun _ => none, fun _ => none, 1⟩

/-- The increment of the last identifier runs over. -/
def add (r : Registry) (process : Int) (component : Nat) : Option Registry :=
  if r.nextID = 0x7FFFFFFF then none
  else
    let map := (r.componentsByProcess process).getD fun _ => none
    some {
      components := update r.components r.nextID (some component)
      componentsByProcess := update r.componentsByProcess process
        (some (update map r.nextID (some component)))
      nextID := r.nextID + 1 }

/-- `setVisible`, which comes first, changes nothing here. To erase what is not in the map of the
process has no result. -/
def removeComponent (r : Registry) (pid id : Int) : Option Registry :=
  match r.components id with
  | none => some r
  | some _ =>
    (match r.componentsByProcess pid with
    | none => some r.componentsByProcess
    | some map =>
      if map id = none then none
      else some (update r.componentsByProcess pid (some (update map id none)))).map fun byProcess =>
        { r with components := update r.components id none, componentsByProcess := byProcess }

/-- The two commands. The process of a thread is given from outside. -/
def processCommand (processOf : Int → Int) (r : Registry) : Request → Option Registry
  | .createComponent _ none => some r
  | .createComponent sender (some component) => r.add (processOf sender) component
  | .removeComponent sender id => r.removeComponent sender id

def entry (r : Registry) (pid id : Int) : Option Nat := (r.componentsByProcess pid).bind (· id)

end Registry

open Registry

def Step (processOf : Int → Int) (r : Registry) (request : Request) (t : Registry) : Prop :=
  r.processCommand processOf request = some t

/-- A registered component is removed by a thread whose own number is that of a process with this
component. -/
def Request.ByOwner (r : Registry) : Request → Prop
  | .removeComponent sender id => r.components id ≠ none → r.entry sender id ≠ none
  | _ => True

def OwnerStep (processOf : Int → Int) (r : Registry) (request : Request) (t : Registry) : Prop :=
  Step processOf r request t ∧ request.ByOwner r

/-- The threads that have created the components, in the order of the identifiers. -/
def creators (requests : List Request) : List Int :=
  requests.filterMap fun
    | .createComponent sender component => component.map fun _ => sender
    | .removeComponent .. => none

/-- The process that has created a component. Identifiers begin with 1. -/
def creatorOf (processOf : Int → Int) (made : List Int) (id : Int) : Option Int :=
  made[(id - 1).toNat]?.map processOf

section Owners

variable {processOf : Int → Int} {made : List Int} {r t : Registry} {pid id : Int}
variable {value : Option Nat}

/-- A component and its entry in the map of a process change together. -/
structure Changed (r t : Registry) (pid id : Int) (value : Option Nat) : Prop where
  components : t.components = update r.components id value
  entry : ∀ p i, t.entry p i = if p = pid ∧ i = id then value else r.entry p i

theorem entry_update {map : Int → Option Nat} {p i : Int} (hMap : ∀ i, map i = r.entry pid i)
    (hUpdate : t.componentsByProcess = update r.componentsByProcess pid (some (update map id value))) :
    t.entry p i = if p = pid ∧ i = id then value else r.entry p i := by
  rw [Registry.entry, hUpdate]
  by_cases hp : p = pid
  · subst hp
    by_cases hi : i = id
    · simp [hi]
    · simp [hi, hMap]
  · simp [hp, Registry.entry]

theorem add_spec {process : Int} {component : Nat} (hAdd : r.add process component = some t) :
    Changed r t process r.nextID (some component) ∧ t.nextID = r.nextID + 1 := by
  obtain ⟨-, hEq⟩ := Option.ite_none_left_eq_some.mp hAdd
  cases hEq
  refine ⟨⟨rfl, fun p i => entry_update (fun i => ?_) rfl⟩, rfl⟩
  unfold Registry.entry
  cases r.componentsByProcess process <;> rfl

/-- The thread has the number of a process with this component, if it is registered at all. -/
theorem removeComponent_spec (hOwn : r.components id ≠ none → r.entry pid id ≠ none)
    (hRemove : r.removeComponent pid id = some t) :
    t = r ∨ r.entry pid id ≠ none ∧ Changed r t pid id none ∧ t.nextID = r.nextID := by
  unfold removeComponent at hRemove
  cases hComponent : r.components id with
  | none =>
    rw [hComponent] at hRemove
    exact .inl (Option.some.inj hRemove).symm
  | some component =>
    have hEntry := hOwn (by simp [hComponent])
    cases hMap : r.componentsByProcess pid with
    | none => simp [Registry.entry, hMap] at hEntry
    | some map =>
      have hHas : map id ≠ none := by simpa [Registry.entry, hMap] using hEntry
      simp only [hComponent, hMap, if_neg hHas, Option.map_some, Option.some.injEq] at hRemove
      subst hRemove
      refine .inr ⟨hEntry, ⟨rfl, fun p i => entry_update (fun i => ?_) rfl⟩, rfl⟩
      rw [Registry.entry, hMap, Option.bind_some]

/-- The map of the process that created a component has it as long as it is registered, and no other
map has it. -/
structure Owned (processOf : Int → Int) (made : List Int) (r : Registry) : Prop where
  nextID_eq : r.nextID = made.length + 1
  known : ∀ id, r.components id ≠ none → 0 < id ∧ id < r.nextID
  entry_eq : ∀ pid id, r.entry pid id =
    if creatorOf processOf made id = some pid then r.components id else none

theorem Owned.creator_of_entry (h : Owned processOf made r)
    (hEntry : r.entry pid id ≠ none) : creatorOf processOf made id = some pid := by
  by_contra hOther
  rw [h.entry_eq, if_neg hOther] at hEntry
  exact hEntry rfl

theorem Owned.changed (h : Owned processOf made r)
    (hChanged : Changed r t pid id value) {more : List Int}
    (hNext : t.nextID = (made ++ more).length + 1) (hValue : value ≠ none → 0 < id ∧ id < t.nextID)
    (hCreator : creatorOf processOf (made ++ more) id = some pid)
    (hOthers : ∀ p, p ≠ pid → r.entry p id = none) : Owned processOf (made ++ more) t := by
  have hOld := h.nextID_eq
  rw [List.length_append, Int.natCast_add] at hNext
  refine ⟨by simpa using hNext, fun i hSome => ?_, fun p i => ?_⟩
  · rw [hChanged.components] at hSome
    by_cases hi : i = id
    · subst hi
      exact hValue (by simpa using hSome)
    · have hKnown := h.known i (by simpa [hi] using hSome)
      omega
  · rw [hChanged.entry, hChanged.components]
    by_cases hi : i = id
    · subst hi
      rw [update_self, hCreator]
      by_cases hp : p = pid
      · simp [hp]
      · simp [hp, hOthers p hp, Ne.symm hp]
    · rw [if_neg fun hBoth => hi hBoth.2, update_of_ne hi, h.entry_eq]
      cases hComponent : r.components i with
      | none => simp
      | some c =>
        have hKnown := h.known i (by simp [hComponent])
        rw [creatorOf, creatorOf, List.getElem?_append_left (by omega)]

theorem Owned.step (h : Owned processOf made r) {request : Request}
    (hStep : OwnerStep processOf r request t) :
    Owned processOf (made ++ creators [request]) t := by
  obtain ⟨hStep, hOwner⟩ := hStep
  have hNext := h.nextID_eq
  cases request with
  | createComponent sender component =>
    cases component with
    | none =>
      cases hStep
      simpa [creators] using h
    | some component =>
      obtain ⟨hChanged, hId⟩ := add_spec hStep
      have hIndex : (r.nextID - 1).toNat = made.length := by omega
      refine h.changed hChanged ?_ (fun _ => by omega) ?_ fun p _ => ?_
      · simp [creators, hId, hNext]
      · simp [creators, creatorOf, hIndex]
      · by_contra hEntry
        rw [h.entry_eq] at hEntry
        have hKnown := h.known r.nextID fun hNone => hEntry (by rw [hNone, ite_self])
        omega
  | removeComponent sender id =>
    rcases removeComponent_spec hOwner hStep with rfl | ⟨hEntry, hChanged, hId⟩
    · simpa [creators] using h
    · have hCreator := h.creator_of_entry hEntry
      refine h.changed hChanged (by simp [creators, hId, hNext]) (absurd rfl) ?_ fun p hp => ?_
      · simpa [creators] using hCreator
      · by_contra hOther
        exact hp (Option.some.inj ((h.creator_of_entry hOther).symm.trans hCreator))

end Owners

/-- As long as every component is removed by the main thread of the process that created it, a
component is in the map of this process alone, every map has only registered components, and
nobody but this process removes it. -/
theorem components_owned {processOf : Int → Int} {requests : List Request} {r : Registry}
    (run : Run (OwnerStep processOf) initial requests r) :
    (∀ id c, r.components id = some c → ∃ creator,
      creatorOf processOf (creators requests) id = some creator ∧
        ∀ pid, r.entry pid id = if pid = creator then some c else none) ∧
    (∀ pid id c, r.entry pid id = some c → r.components id = some c) ∧
    ∀ sender id t, OwnerStep processOf r (.removeComponent sender id) t → r.components id ≠ none →
      creatorOf processOf (creators requests) id = some sender := by
  have h : Owned processOf (creators requests) r := by
    induction run with
    | nil => exact ⟨rfl, fun id hSome => absurd rfl hSome, fun pid id => (ite_self none).symm⟩
    | snoc prior last ih =>
      rw [creators, List.filterMap_append]
      exact ih.step last
  refine ⟨fun id c hComponent => ?_, fun pid id c hEntry => ?_, fun sender id t hStep hSome =>
    h.creator_of_entry (hStep.2 hSome)⟩
  · have hKnown := h.known id (by simp [hComponent])
    have hNext := h.nextID_eq
    have hLess : (id - 1).toNat < (creators requests).length := by omega
    refine ⟨_, by rw [creatorOf, List.getElem?_eq_getElem hLess, Option.map_some], fun pid => ?_⟩
    rw [h.entry_eq, creatorOf, List.getElem?_eq_getElem hLess, hComponent]
    simp [eq_comm]
  · rw [h.entry_eq] at hEntry
    split at hEntry
    · exact hEntry
    · cases hEntry

/-- The thread 3 is a process, and the thread 5 belongs to it. -/
def threads (tid : Int) : Int := if tid = 5 then 3 else tid

def reached (requests : List Request) : Registry :=
  replay (processCommand threads) initial requests

/-- A component is created by another thread and removed by the main thread. -/
theorem components_owned_removed :
    Run (OwnerStep threads) initial [.createComponent 5 (some 8), .removeComponent 3 1]
        (reached [.createComponent 5 (some 8), .removeComponent 3 1]) ∧
      creatorOf threads (creators [.createComponent 5 (some 8)]) 1 = some 3 := by
  have hCreate : Run (OwnerStep threads) initial [.createComponent 5 (some 8)]
      (reached [.createComponent 5 (some 8)]) :=
    Run.single ⟨rfl, trivial⟩
  have hRemove : OwnerStep threads (reached [.createComponent 5 (some 8)]) (.removeComponent 3 1)
      (reached [.createComponent 5 (some 8), .removeComponent 3 1]) :=
    ⟨rfl, fun _ => by decide⟩
  exact ⟨hCreate.snoc hRemove, (components_owned hCreate).2.2 3 1 _ hRemove (by decide)⟩

/-- The thread that has created a component removes it, and the map of the process still has it. The
main thread of another process removes it as well. -/
theorem removed_by_others :
    Run (Step threads) initial [.createComponent 5 (some 8), .removeComponent 5 1]
        (reached [.createComponent 5 (some 8), .removeComponent 5 1]) ∧
      (reached [.createComponent 5 (some 8), .removeComponent 5 1]).components 1 = none ∧
      (reached [.createComponent 5 (some 8), .removeComponent 5 1]).entry 3 1 = some 8 ∧
      Run (Step threads) initial [.createComponent 3 (some 8), .removeComponent 4 1]
        (reached [.createComponent 3 (some 8), .removeComponent 4 1]) ∧
      (reached [.createComponent 3 (some 8), .removeComponent 4 1]).components 1 = none :=
  ⟨run_replay rfl, rfl, rfl, run_replay rfl, rfl⟩

end ZipNet.ComponentRegistry
