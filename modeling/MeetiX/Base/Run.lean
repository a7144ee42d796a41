import Mathlib.Data.List.Basic

/-! Finite runs of a labelled transition relation, and the induction of every safety result. -/
namespace Base

/-- The states reached by taking the listed steps one after another. The last
step of the list is the last one taken. -/
inductive Run {State Label : Type*} (step : State → Label → State → Prop) :
    State → List Label → State → Prop where
  | nil (start : State) : Run step start [] start
  | snoc {start middle finish : State} {labels : List Label} {label : Label}
      (prior : Run step start labels middle) (last : step middle label finish) :
      Run step start (labels ++ [label]) finish

variable {State Label : Type*} {step : State → Label → State → Prop} {start finish : State}
variable {labels : List Label} {execute : State → Label → Option State} {Inv : State → Prop}
variable {label : Label}

theorem Run.invariant (run : Run step start labels finish) (hStart : Inv start)
    (hStep : ∀ s label t, Inv s → step s label t → Inv t) : Inv finish := by
  induction run with
  | nil => exact hStart
  | snoc prior last ih => exact hStep _ _ _ ih last

theorem Run.invariant_of_mem (run : Run step start labels finish) (hStart : Inv start)
    (hStep : ∀ s label t, label ∈ labels → Inv s → step s label t → Inv t) : Inv finish := by
  induction run with
  | nil => exact hStart
  | snoc prior last ih =>
    refine hStep _ _ _ (List.mem_append_right _ (List.mem_singleton_self _)) (ih ?_) last
    exact fun s label t hMem => hStep s label t (List.mem_append_left _ hMem)

theorem Run.append {middle : State} {first second : List Label}
    (left : Run step start first middle) (right : Run step middle second finish) :
    Run step start (first ++ second) finish := by
  induction right with
  | nil => simpa using left
  | snoc prior last ih =>
    rw [← List.append_assoc]
    exact Run.snoc ih last

theorem Run.single (h : step start label finish) : Run step start [label] finish :=
  Run.snoc (Run.nil start) h

theorem Run.of_mem {other : State → Label → State → Prop} (run : Run step start labels finish)
    (h : ∀ s label t, label ∈ labels → step s label t → other s label t) :
    Run other start labels finish := by
  induction run with
  | nil => exact Run.nil _
  | snoc prior last ih =>
    refine Run.snoc (ih fun s label t hMem => h s label t (List.mem_append_left _ hMem)) ?_
    exact h _ _ _ (List.mem_append_right _ (List.mem_singleton_self _)) last

theorem Run.of_foldlM (h : labels.foldlM execute start = some finish) :
    Run (fun s label t => execute s label = some t) start labels finish := by
  induction labels generalizing start with
  | nil =>
    cases h
    exact Run.nil _
  | cons label labels ih =>
    obtain ⟨middle, hStep, hRest⟩ := Option.bind_eq_some_iff.mp h
    have hFirst : Run (fun s label t => execute s label = some t) start [label] middle :=
      Run.single hStep
    exact hFirst.append (ih hRest)

/-- A loop over a list may keep a property that speaks about what is still ahead. -/
theorem foldlM_remaining {Inv : List Label → State → Prop}
    (hStep : ∀ label rest s t, Inv (label :: rest) s → execute s label = some t → Inv rest t)
    (hStart : Inv labels start)
    (h : labels.foldlM execute start = some finish) : Inv [] finish := by
  induction labels generalizing start with
  | nil =>
    cases h
    exact hStart
  | cons label labels ih =>
    obtain ⟨middle, hFirst, hRest⟩ := Option.bind_eq_some_iff.mp h
    exact ih (hStep label labels start middle hStart hFirst) hRest

/-- The state after the listed steps, if all of them can be computed. -/
def replay (execute : State → Label → Option State) (start : State) (labels : List Label) : State :=
  (labels.foldlM execute start).getD start

theorem run_replay (h : (labels.foldlM execute start).isSome) :
    Run (fun s label t => execute s label = some t) start labels (replay execute start labels) := by
  obtain ⟨finish, hFinish⟩ := Option.isSome_iff_exists.mp h
  rw [replay, hFinish]
  exact Run.of_foldlM hFinish

theorem execute_replay (rest : List Label)
    (h : ((labels ++ label :: rest).foldlM execute start).isSome) :
    execute (replay execute start labels) label =
      some (replay execute start (labels ++ [label])) := by
  obtain ⟨finish, hFinish⟩ := Option.isSome_iff_exists.mp h
  rw [List.foldlM_append] at hFinish
  obtain ⟨middle, hPrior, hRest⟩ := Option.bind_eq_some_iff.mp hFinish
  obtain ⟨last, hStep, -⟩ := Option.bind_eq_some_iff.mp hRest
  simp [replay, hPrior, hStep]

end Base
