import Mathlib.Data.List.Nodup

/-! A cursor that walks along a list without repetitions. What it still has to
visit is the part of the list behind the element it stands on. -/
namespace Base

open List

variable {α : Type*} {order : List α}

section Following

variable [DecidableEq α] {x y : α} {queue kept : List α}

/-- The elements behind the first occurrence of `x`. -/
def following (x : α) : List α → List α
  | [] => []
  | y :: rest => if y = x then rest else following x rest

@[simp] theorem following_self (x : α) (rest : List α) : following x (x :: rest) = rest := by
  simp [following]

theorem following_cons_of_ne (h : y ≠ x) (rest : List α) :
    following x (y :: rest) = following x rest := by
  simp [following, h]

theorem following_sublist (x : α) (queue : List α) : (following x queue).Sublist queue := by
  induction queue with
  | nil => exact List.Sublist.refl _
  | cons y rest ih =>
    unfold following
    split
    · exact sublist_cons_self y rest
    · exact ih.trans (sublist_cons_self y rest)

theorem mem_of_mem_following (h : y ∈ following x queue) : y ∈ queue :=
  (following_sublist x queue).subset h

theorem following_append_of_not_mem {front : List α} (h : x ∉ front) (queue : List α) :
    following x (front ++ queue) = following x queue := by
  induction front with
  | nil => rfl
  | cons y front ih =>
    rw [mem_cons, not_or] at h
    rw [cons_append, following_cons_of_ne (Ne.symm h.1), ih h.2]

/-- Elements that leave the list do not change the order of the others. -/
theorem following_mono (h : kept.Sublist queue) (hNodup : queue.Nodup) (hMem : x ∈ kept) :
    (following x kept).Sublist (following x queue) := by
  induction h with
  | slnil => simp at hMem
  | @cons kept queue y hSub ih =>
    have hParts := nodup_cons.mp hNodup
    have hy : y ≠ x := by
      rintro rfl
      exact hParts.1 (hSub.subset hMem)
    rw [following_cons_of_ne hy]
    exact ih hParts.2 hMem
  | @cons_cons kept queue y hSub ih =>
    by_cases hy : y = x
    · subst hy
      simpa using hSub
    · rw [following_cons_of_ne hy, following_cons_of_ne hy]
      exact ih (nodup_cons.mp hNodup).2 ((mem_cons.mp hMem).resolve_left (Ne.symm hy))

theorem mem_following_of_sublist (h : kept.Sublist queue)
    (hNodup : queue.Nodup) (hx : x ∈ kept) (hy : y ∈ kept) (hBehind : y ∈ following x queue) :
    y ∈ following x kept := by
  induction h with
  | slnil => simp at hx
  | @cons kept queue z hSub ih =>
    have hParts := nodup_cons.mp hNodup
    have hz : z ≠ x := by
      rintro rfl
      exact hParts.1 (hSub.subset hx)
    rw [following_cons_of_ne hz] at hBehind
    exact ih hParts.2 hx hy hBehind
  | @cons_cons kept queue z hSub ih =>
    have hParts := nodup_cons.mp hNodup
    by_cases hz : z = x
    · subst hz
      rw [following_self] at hBehind ⊢
      refine (mem_cons.mp hy).resolve_left ?_
      rintro rfl
      exact hParts.1 hBehind
    · rw [following_cons_of_ne hz] at hBehind ⊢
      have hyz : y ≠ z := by
        rintro rfl
        exact hParts.1 (mem_of_mem_following hBehind)
      exact ih hParts.2 ((mem_cons.mp hx).resolve_left (Ne.symm hz))
        ((mem_cons.mp hy).resolve_left hyz) hBehind

/-- One step of the cursor leaves one element fewer to visit. -/
theorem following_next {rest : List α} (hNodup : queue.Nodup)
    (h : following x queue = y :: rest) : following y queue = rest := by
  induction queue with
  | nil => simp [following] at h
  | cons z queue ih =>
    have hParts := nodup_cons.mp hNodup
    by_cases hz : z = x
    · subst hz
      rw [following_self] at h
      subst h
      rw [following_cons_of_ne (by rintro rfl; exact hParts.1 mem_cons_self), following_self]
    · rw [following_cons_of_ne hz] at h
      have hy : y ∈ queue := mem_of_mem_following (by rw [h]; exact mem_cons_self)
      rw [following_cons_of_ne (by rintro rfl; exact hParts.1 hy)]
      exact ih hParts.2 h

end Following

/-- The cursor has just visited the last element of `front`; what it visits next is `back` and then
`front` again. A cursor that is not in the list begins at its head. -/
structure Stands (current : Option α) (front back queue : List α) : Prop where
  split : queue = front ++ back
  last : front.getLast? = current ∨ front = [] ∧ ∀ x, current = some x → x ∉ queue

theorem exists_stands (current : Option α) (queue : List α) :
    ∃ front back, Stands current front back queue := by
  cases current with
  | none => exact ⟨[], queue, rfl, .inl rfl⟩
  | some x =>
    by_cases hMem : x ∈ queue
    · obtain ⟨front, back, hQueue⟩ := append_of_mem hMem
      refine ⟨front ++ [x], back, ?_, .inl (getLast?_concat ..)⟩
      rw [hQueue, append_assoc, singleton_append]
    · refine ⟨[], queue, rfl, .inr ⟨rfl, fun y hCurrent => ?_⟩⟩
      cases hCurrent
      exact hMem

theorem Stands.following [DecidableEq α] {x : α} {front back queue : List α}
    (h : Stands (some x) front back queue) (hNodup : queue.Nodup) (hMem : x ∈ queue) : Base.following x queue = back := by
  rcases h.last with hLast | ⟨-, hNot⟩
  · obtain ⟨init, rfl⟩ := getLast?_eq_some_iff.mp hLast
    have hSplit := h.split
    rw [append_assoc, singleton_append] at hSplit
    rw [hSplit] at hNodup ⊢
    have hInit : x ∉ init := fun hIn =>
      (nodup_append.mp hNodup).2.2 x hIn x (mem_cons_self ..) rfl
    rw [following_append_of_not_mem hInit, following_self]
  · exact absurd hMem (hNot x rfl)

theorem Stands.advance {current : Option α} {front back queue rest : List α} {x : α}
    (h : Stands current front back queue) (hOrder : back ++ front = x :: rest) :
    back.head?.or queue.head? = some x ∧
      ∃ front' back', Stands (some x) front' back' queue ∧ back' ++ front' = rest ++ [x] := by
  cases back with
  | nil =>
    rw [nil_append] at hOrder
    have hQueue : queue = x :: rest := by
      rw [h.split, hOrder, append_nil]
    rw [hQueue]
    exact ⟨rfl, [x], rest, ⟨rfl, .inl rfl⟩, rfl⟩
  | cons y back =>
    rw [cons_append] at hOrder
    injection hOrder with hHead hRest
    subst hHead
    refine ⟨rfl, front ++ [y], back, ⟨?_, .inl (getLast?_concat ..)⟩, ?_⟩
    · rw [h.split, append_assoc, singleton_append]
    · rw [← hRest, append_assoc]

/-- The elements visited in so many steps, in an order that is gone through again and again. -/
def visits : List α → Nat → List α
  | [], _ => []
  | _ :: _, 0 => []
  | x :: rest, steps + 1 => x :: visits (rest ++ [x]) steps
termination_by _ steps => steps

@[simp] theorem visits_zero (order : List α) : visits order 0 = [] := by
  cases order <;> simp [visits]

@[simp] theorem visits_succ (x : α) (rest : List α) (steps : Nat) :
    visits (x :: rest) (steps + 1) = x :: visits (rest ++ [x]) steps := by
  rw [visits]

theorem length_visits (h : order ≠ []) (steps : Nat) : (visits order steps).length = steps := by
  induction steps generalizing order with
  | zero => simp
  | succ steps ih =>
    obtain ⟨x, rest, rfl⟩ := exists_cons_of_ne_nil h
    rw [visits_succ, length_cons, ih (by simp)]

theorem visits_append (front back : List α) (steps : Nat) :
    visits (front ++ back) (front.length + steps) = front ++ visits (back ++ front) steps := by
  induction front generalizing back with
  | nil => simp
  | cons x front ih =>
    have hSteps : (x :: front).length + steps = (front.length + steps) + 1 := by
      rw [length_cons]
      omega
    rw [hSteps, cons_append, visits_succ, append_assoc, ih (back ++ [x])]
    simp

/-- However many steps were made before, a full round visits every element once. -/
theorem visits_window_perm (earlier later : Nat) :
    (((visits order (earlier + order.length + later)).drop earlier).take order.length).Perm order := by
  induction earlier generalizing order with
  | zero =>
    have hRound := visits_append order [] later
    rw [append_nil] at hRound
    rw [Nat.zero_add, drop_zero, hRound, take_left']
    rfl
  | succ earlier ih =>
    cases order with
    | nil => simp [visits]
    | cons x rest =>
      have hSteps : earlier + 1 + (x :: rest).length + later =
          (earlier + (rest ++ [x]).length + later) + 1 := by
        simp
        omega
      have hLength : (x :: rest).length = (rest ++ [x]).length := by simp
      rw [hSteps, visits_succ, hLength]
      exact ih.trans (perm_append_singleton x rest)

end Base
