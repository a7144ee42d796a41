import Mathlib

/-! Actions that change a state and may stop before their end, with the state they had reached.
First the properties that an action keeps whatever its outcome is, as instances that follow from
those of its parts; then one outcome of a sequence or a loop, taken apart. -/
namespace Base

open List

section Results

variable {Reason State Value Result : Type}

def finalState : EStateM.Result Reason State Value → State
  | .ok _ s => s
  | .error _ s => s

theorem run_bind (first : EStateM Reason State Value) (next : Value → EStateM Reason State Result)
    (s : State) :
    (first >>= next).run s = match first.run s with
      | .ok value t => (next value).run t
      | .error reason t => .error reason t := by
  change EStateM.bind first next s = _
  cases first s <;> rfl

/-- An action that begins by looking at the state. -/
theorem run_get_bind (next : State → EStateM Reason State Result) (s : State) :
    (get >>= next).run s = (next s).run s :=
  rfl

/-- A loop that looks at the state, makes a round if it has to, and goes on. -/
def whileDo (test : State → Prop) [DecidablePred test] (round : State → EStateM Reason State PUnit)
    (change : State → State) (rest : EStateM Reason State PUnit) : EStateM Reason State PUnit := do
  let m ← get
  if test m then
    round m
    modify change
    rest

def returned : EStateM.Result Reason State Value → Option Value
  | .ok value _ => some value
  | .error _ _ => none

theorem eq_ok_of_returned {result : EStateM.Result Reason State Value} {value : Value}
    (h : returned result = some value) : result = .ok value (finalState result) := by
  cases result with
  | ok found s =>
    cases h
    rfl
  | error => cases h

end Results

section Finishes

variable {Reason State Value Result : Type} {Returns Returns' : Value → State → Prop}
  {Stops Stops' : Reason → State → Prop} {outcome : EStateM.Result Reason State Value}
variable {s : State}

/-- What holds of the outcome of an action, whether it returns or stops. -/
inductive Finishes (Returns : Value → State → Prop) (Stops : Reason → State → Prop) :
    EStateM.Result Reason State Value → Prop
  | returns {value : Value} {t : State} (h : Returns value t) : Finishes Returns Stops (.ok value t)
  | stops {reason : Reason} {t : State} (h : Stops reason t) :
    Finishes Returns Stops (.error reason t)

namespace Finishes

variable {t : State}

theorem of_returns {value : Value} (h : Finishes Returns Stops outcome)
    (hRun : outcome = .ok value t) : Returns value t := by
  subst hRun
  cases h with
  | returns h => exact h

theorem of_stops {reason : Reason} (h : Finishes Returns Stops outcome)
    (hRun : outcome = .error reason t) : Stops reason t := by
  subst hRun
  cases h with
  | stops h => exact h

theorem of_run (outcome : EStateM.Result Reason State Value) :
    Finishes (fun value t => outcome = .ok value t) (fun reason t => outcome = .error reason t)
      outcome := by
  cases outcome with
  | ok => exact .returns rfl
  | error => exact .stops rfl

theorem exists_returns (h : Finishes Returns (fun _ _ => False) outcome) :
    ∃ value t, outcome = .ok value t ∧ Returns value t := by
  cases h with
  | returns h => exact ⟨_, _, rfl, h⟩
  | stops h => exact h.elim

theorem mono (h : Finishes Returns Stops outcome)
    (hReturns : ∀ value t, Returns value t → Returns' value t)
    (hStops : ∀ reason t, Stops reason t → Stops' reason t) : Finishes Returns' Stops' outcome := by
  cases h with
  | returns h => exact .returns (hReturns _ _ h)
  | stops h => exact .stops (hStops _ _ h)

theorem and (h : Finishes Returns Stops outcome) (h' : Finishes Returns' Stops' outcome) :
    Finishes (fun value t => Returns value t ∧ Returns' value t)
      (fun reason t => Stops reason t ∧ Stops' reason t) outcome := by
  cases h with
  | returns h => exact .returns ⟨h, h'.of_returns rfl⟩
  | stops h => exact .stops ⟨h, h'.of_stops rfl⟩

/-- A sequence goes on from where its first part returned. -/
theorem bind {first : EStateM Reason State Value} {next : Value → EStateM Reason State Result}
    {s : State} {Ends : Result → State → Prop} (h : Finishes Returns Stops (first.run s))
    (hNext : ∀ value t, Returns value t → Finishes Ends Stops' ((next value).run t))
    (hStops : ∀ reason t, Stops reason t → Stops' reason t) :
    Finishes Ends Stops' ((first >>= next).run s) := by
  rw [run_bind]
  generalize first.run s = outcome at h
  cases h with
  | returns h => exact hNext _ _ h
  | stops h => exact .stops (hStops _ _ h)

end Finishes

/-- A loop with a limit on its rounds. The property may speak about the rounds that are left, and
the test has failed where none is. -/
theorem whileDo_finishes (test : State → Prop) [DecidablePred test]
    (round : State → EStateM Reason State PUnit) {change : State → State}
    {loop : Nat → EStateM Reason State PUnit}
    (hLoop : ∀ fuel, loop (fuel + 1) = whileDo test round change (loop fuel))
    (Inv : Nat → State → Prop) (hDone : ∀ a, Inv 0 a → ¬test a)
    (hRound : ∀ left a, Inv (left + 1) a → test a →
      Finishes (fun _ m => Inv left (change m)) Stops ((round a).run a))
    {fuel : Nat} (h : Inv fuel s) :
    Finishes (fun _ t => (∃ left, Inv left t) ∧ ¬test t) Stops ((loop (fuel + 1)).run s) := by
  have hRun (fuel : Nat) (s : State) : (loop (fuel + 1)).run s =
      (if test s then do round s; modify change; loop fuel else pure PUnit.unit).run s := by
    rw [hLoop]
    rfl
  induction fuel generalizing s with
  | zero =>
    rw [hRun, if_neg (hDone s h)]
    exact .returns ⟨⟨0, h⟩, hDone s h⟩
  | succ fuel ih =>
    rw [hRun]
    by_cases hTest : test s
    · rw [if_pos hTest]
      exact (hRound fuel s h hTest).bind (fun _ m hNext => ih hNext) fun _ _ hStop => hStop
    · rw [if_neg hTest]
      exact .returns ⟨⟨_, h⟩, hTest⟩

end Finishes

section Ensures

variable {Reason State Value Result Item : Type} {Inv : State → Prop}
  {Stops : Reason → State → Prop} {action : EStateM Reason State Value} {s t : State}

/-- The property holds after the action if it held before. Where the action stops, the reason and
the state reached are of the given kind. -/
class Ensures (Inv : State → Prop) (Stops : Reason → State → Prop)
    (action : EStateM Reason State Value) : Prop where
  finishes : ∀ s, Inv s → Finishes (fun _ t => Inv t) Stops (action.run s)

/-- The property holds after the action if it held before, also when the
action stopped. -/
abbrev Keeps (Inv : State → Prop) (action : EStateM Reason State Value) : Prop :=
  Ensures Inv (fun _ => Inv) action

/-- Wherever the action stops, the reason and the state reached are of the given kind. -/
abbrev StopsWith (Why : Reason → State → Prop) (action : EStateM Reason State Value) : Prop :=
  Ensures (fun _ => True) Why action

namespace Ensures

instance pure (value : Value) : Ensures Inv Stops (pure value : EStateM Reason State Value) :=
  ⟨fun _ hInv => .returns hInv⟩

instance get : Ensures Inv Stops (get : EStateM Reason State State) :=
  ⟨fun _ hInv => .returns hInv⟩

theorem seq {first : EStateM Reason State Value} {next : Value → EStateM Reason State Result}
    [hFirst : Ensures Inv Stops first] (hNext : ∀ value, Ensures Inv Stops (next value)) :
    Ensures Inv Stops (first >>= next) :=
  ⟨fun s hInv => (hFirst.finishes s hInv).bind (fun value => (hNext value).finishes)
    fun _ _ hStops => hStops⟩

instance bind (first : EStateM Reason State Value) (next : Value → EStateM Reason State Result)
    [Ensures Inv Stops first] [hNext : ∀ value, Ensures Inv Stops (next value)] :
    Ensures Inv Stops (first >>= next) :=
  seq hNext

instance ite (condition : Prop) [Decidable condition] (yes no : EStateM Reason State Value)
    [hYes : Ensures Inv Stops yes] [hNo : Ensures Inv Stops no] :
    Ensures Inv Stops (if condition then yes else no) := by
  split
  · exact hYes
  · exact hNo

/-- A loop ensures what its body ensures for each of the items. -/
theorem forIn_of_mem (items : List Item) (start : Value)
    (body : Item → Value → EStateM Reason State (ForInStep Value))
    (hBody : ∀ item ∈ items, ∀ value, Ensures Inv Stops (body item value)) :
    Ensures Inv Stops (ForIn.forIn items start body) := by
  induction items generalizing start with
  | nil => exact Ensures.pure start
  | cons item items ih =>
    rw [forIn_cons]
    have hFirst := hBody item (mem_cons_self ..)
    have hNext : ∀ step : ForInStep Value, Ensures Inv Stops (match step with
        | .done value => Pure.pure value
        | .yield value => ForIn.forIn items value body) := by
      intro step
      cases step with
      | done value => exact Ensures.pure value
      | yield value =>
        exact ih value fun other hOther => hBody other (mem_cons_of_mem item hOther)
    infer_instance

instance forIn (items : List Item) (start : Value)
    (body : Item → Value → EStateM Reason State (ForInStep Value))
    [hBody : ∀ item value, Ensures Inv Stops (body item value)] :
    Ensures Inv Stops (ForIn.forIn items start body) :=
  forIn_of_mem items start body fun item _ => hBody item

end Ensures

instance StopsWith.modify (change : State → State) :
    StopsWith Stops (modify change : EStateM Reason State PUnit) :=
  ⟨fun _ _ => .returns trivial⟩

theorem StopsWith.stops (h : StopsWith Stops action) {reason : Reason}
    (hRun : action.run s = .error reason t) : Stops reason t :=
  (h.finishes s trivial).of_stops hRun

instance Keeps.throw (reason : Reason) : Keeps Inv (throw reason : EStateM Reason State Value) :=
  ⟨fun _ hInv => .stops hInv⟩

theorem Keeps.modify {change : State → State} (h : ∀ s, Inv s → Inv (change s)) :
    Keeps Inv (modify change : EStateM Reason State PUnit) :=
  ⟨fun s hInv => .returns (h s hInv)⟩

theorem Keeps.modifyGet {change : State → Value × State} (h : ∀ s, Inv s → Inv (change s).2) :
    Keeps Inv (modifyGet change : EStateM Reason State Value) :=
  ⟨fun s hInv => .returns (h s hInv)⟩

theorem Keeps.after (h : Keeps Inv action) (hInv : Inv s) : Inv (finalState (action.run s)) := by
  have hAfter := h.finishes s hInv
  generalize action.run s = outcome at hAfter
  cases hAfter with
  | returns h => exact h
  | stops h => exact h

theorem Keeps.of_returns [h : Keeps Inv action] {value : Value} (hInv : Inv s)
    (hRun : action.run s = .ok value t) : Inv t :=
  (h.finishes s hInv).of_returns hRun

theorem Keeps.of_after (h : ∀ s, Inv s → Inv (finalState (action.run s))) : Keeps Inv action where
  finishes s hInv := by
    have hAfter := h s hInv
    generalize action.run s = outcome at hAfter ⊢
    cases outcome with
    | ok => exact .returns hAfter
    | error => exact .stops hAfter

theorem Finishes.of_keeps {Returns : Value → State → Prop} (hKeeps : Keeps Inv action)
    (hInv : Inv s) (h : Finishes (fun value t => Inv t → Returns value t) Stops (action.run s)) :
    Finishes Returns Stops (action.run s) := by
  have hAfter := hKeeps.after hInv
  generalize action.run s = outcome at h hAfter ⊢
  cases h with
  | returns h => exact .returns (h hAfter)
  | stops h => exact .stops h

end Ensures

section Outcomes

variable {Reason State Value Result : Type} {first : EStateM Reason State Value}
  {next : Value → EStateM Reason State Result} {s t : State} {reason : Reason} {result : Result}

theorem bind_returns_iff : (first >>= next).run s = .ok result t ↔
    ∃ value middle, first.run s = .ok value middle ∧ (next value).run middle = .ok result t := by
  rw [run_bind]
  cases first.run s <;> simp

theorem bind_eq_ok_iff {first : Except Reason Value} {next : Value → Except Reason Result} :
    (first >>= next) = .ok result ↔ ∃ value, first = .ok value ∧ next value = .ok result := by
  cases first <;> simp [bind, Except.bind]

end Outcomes

section Loops

variable {Reason State : Type} {body : Nat → EStateM Reason State PUnit}

abbrev loop (body : Nat → EStateM Reason State PUnit) (items : List Nat) :
    EStateM Reason State PUnit :=
  forIn items PUnit.unit fun i _ => do
    body i
    pure (ForInStep.yield PUnit.unit)

theorem loop_cons (item : Nat) (items : List Nat) :
    loop body (item :: items) = (body item >>= fun _ => loop body items) := by
  unfold loop
  rw [forIn_cons, bind_assoc]
  rfl

theorem loop_of_fixed {items : List Nat} {s : State}
    (h : ∀ item ∈ items, (body item).run s = .ok PUnit.unit s) :
    (loop body items).run s = .ok PUnit.unit s := by
  induction items with
  | nil => rfl
  | cons item items ih =>
    rw [loop_cons]
    refine bind_returns_iff.mpr ⟨PUnit.unit, s, h item (mem_cons_self ..), ?_⟩
    exact ih fun other hOther => h other (mem_cons_of_mem item hOther)

variable (Inv : Nat → State → Prop) {first count : Nat} {s t : State}

/-- What a loop has done when it returns, and where it stops, from what its body does. The property
may speak about the number that comes next. -/
theorem loop_finishes {Stops : Reason → State → Prop} (hStart : Inv first s)
    (hBody : ∀ i a, first ≤ i → i < first + count → Inv i a →
      Finishes (fun _ b => Inv (i + 1) b) Stops ((body i).run a)) :
    Finishes (fun _ t => Inv (first + count) t) Stops
      ((loop body (range' first count)).run s) := by
  induction count generalizing first s with
  | zero => exact .returns hStart
  | succ count ih =>
    rw [range'_succ, loop_cons]
    refine (hBody first s (le_refl _) (by omega) hStart).bind (fun _ middle hMiddle => ?_)
      fun _ _ hStop => hStop
    rw [show first + (count + 1) = first + 1 + count by omega]
    exact ih hMiddle fun i a hLow hHigh => hBody i a (by omega) (by omega)

/-- A loop that returns has gone through all of its rounds. -/
theorem loop_returns (hStart : Inv first s)
    (hBody : ∀ i a b, first ≤ i → i < first + count → Inv i a →
      (body i).run a = .ok PUnit.unit b → Inv (i + 1) b)
    (hRun : (loop body (range' first count)).run s = .ok PUnit.unit t) :
    Inv (first + count) t :=
  (loop_finishes Inv hStart fun i a hLow hHigh hInv =>
    (Finishes.of_run _).mono (fun _ b => hBody i a b hLow hHigh hInv) fun _ _ _ => trivial).of_returns
      hRun

end Loops

end Base
