import Mathlib.Data.List.Basic
import Mathlib.Data.List.GetD

/-! A circular buffer of fixed capacity. A window of it goes from one offset up to the end and on
at offset 0; copying it in at most two straight pieces reads and writes exactly its cells. -/
namespace Base.Ring

open List

variable {α : Type*}

/-- The offset `i` cells after `start`. -/
def place (capacity start i : Nat) : Nat :=
  if start + i < capacity then start + i else start + i - capacity

/-- The cells of a window in their order. -/
def window (store : Nat → α) (capacity start count : Nat) : List α :=
  (range count).map fun i => store (place capacity start i)

/-- Straight reading. -/
def slice (store : Nat → α) (start count : Nat) : List α :=
  (range count).map fun i => store (start + i)

/-- Straight writing. -/
def overwrite (store : Nat → α) (start : Nat) (data : List α) : Nat → α := fun offset =>
  if start ≤ offset then (data[offset - start]?).getD (store offset) else store offset

section Facts

variable {capacity start i j m n : Nat} {store store' : Nat → α} {data : List α}

theorem place_lt (hStart : start < capacity) (hi : i ≤ capacity) :
    place capacity start i < capacity := by
  unfold place
  split <;> omega

theorem place_place (hStart : start < capacity) (hij : i + j ≤ capacity) :
    place capacity (place capacity start i) j = place capacity start (i + j) := by
  unfold place
  split <;> split <;> split <;> omega

theorem place_eq_mod (hStart : start < capacity) (hi : i ≤ capacity) :
    place capacity start i = (start + i) % capacity := by
  unfold place
  split
  · rename_i h
    exact (Nat.mod_eq_of_lt h).symm
  · rw [Nat.mod_eq_sub_mod (by omega), Nat.mod_eq_of_lt (by omega)]

@[simp] theorem length_window : (window store capacity start n).length = n := by
  simp [window]

@[simp] theorem length_slice : (slice store start n).length = n := by
  simp [slice]

theorem window_append (hStart : start < capacity) (hmn : m + n ≤ capacity) :
    window store capacity start (m + n) =
      window store capacity start m ++ window store capacity (place capacity start m) n := by
  unfold window
  rw [range_add, map_append, map_map]
  congr 1
  apply map_congr_left
  intro k hk
  rw [mem_range] at hk
  simp only [Function.comp_apply]
  rw [place_place hStart (by omega)]

theorem slice_eq_window (h : start + n ≤ capacity) :
    slice store start n = window store capacity start n := by
  apply map_congr_left
  intro k hk
  rw [mem_range] at hk
  rw [place, if_pos (by omega)]

theorem slice_append_slice (hStart : start < capacity) (hn : n ≤ capacity)
    (hPass : capacity < start + n) :
    slice store start (capacity - start) ++ slice store 0 (n - (capacity - start)) =
      window store capacity start n := by
  have hHome : place capacity start (capacity - start) = 0 := by
    unfold place
    split <;> omega
  have hFirst : slice store start (capacity - start) =
      window store capacity start (capacity - start) := slice_eq_window (by omega)
  have hSecond : slice store 0 (n - (capacity - start)) =
      window store capacity (place capacity start (capacity - start)) (n - (capacity - start)) := by
    rw [hHome]
    exact slice_eq_window (by omega)
  rw [hFirst, hSecond, ← window_append hStart (by omega)]
  congr 1
  omega

/-- The store after the data went into the window that starts at `start`. -/
def Filled (store store' : Nat → α) (capacity start : Nat) (data : List α) : Prop :=
  ∀ i, i < capacity →
    store' (place capacity start i) = (data[i]?).getD (store (place capacity start i))

theorem filled_overwrite (hData : start + data.length ≤ capacity) :
    Filled store (overwrite store start data) capacity start data := by
  intro i hi
  unfold overwrite place
  by_cases hPass : start + i < capacity
  · simp [hPass]
  · simp only [hPass]
    have hOut : data[i]? = none := getElem?_eq_none (by omega)
    by_cases hAfter : start ≤ start + i - capacity
    · have hOut' : data[start + i - capacity - start]? = none :=
        getElem?_eq_none (by omega)
      simp [hOut, hOut']
    · simp [hAfter, hOut]

theorem filled_overwrite_overwrite (hStart : start < capacity) (hData : data.length ≤ capacity) :
    Filled store
      (overwrite (overwrite store start (data.take (capacity - start))) 0
        (data.drop (capacity - start)))
      capacity start data := by
  intro i hi
  unfold overwrite place
  by_cases hEnd : start + i < capacity
  · have hOut : (data.drop (capacity - start))[start + i]? = none :=
      getElem?_eq_none (by rw [length_drop]; omega)
    have hIn : (data.take (capacity - start))[i]? = data[i]? :=
      getElem?_take_of_lt (by omega)
    simp [hEnd, hOut, hIn]
  · have hBefore : ¬ start ≤ start + i - capacity := by omega
    have hIn : (data.drop (capacity - start))[start + i - capacity]? = data[i]? := by
      rw [getElem?_drop]
      congr 1
      omega
    simp [hEnd, hBefore, hIn]

theorem Filled.window_new (h : Filled store store' capacity start data)
    (hData : data.length ≤ capacity) : window store' capacity start data.length = data := by
  apply ext_getElem (by simp)
  intro i hi hi'
  simp only [window, getElem_map, getElem_range]
  rw [h i (by omega), getElem?_eq_getElem hi', Option.getD_some]

/-- The window before the written one keeps its cells as long as the two do
not overlap. -/
theorem Filled.window_old
    (h : Filled store store' capacity (place capacity start n) data) (hStart : start < capacity)
    (hRoom : n + data.length ≤ capacity) :
    window store' capacity start n = window store capacity start n := by
  apply map_congr_left
  intro k hk
  rw [mem_range] at hk
  have hAround : place capacity start k =
      place capacity (place capacity start n) (capacity - n + k) := by
    unfold place
    split <;> split <;> split <;> omega
  have hOut : data[capacity - n + k]? = none := getElem?_eq_none (by omega)
  rw [hAround, h _ (by omega), hOut, Option.getD_none]

end Facts

end Base.Ring
