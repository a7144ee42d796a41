import Mathlib.Data.List.Nodup

/-! Linked lists in an address space. A link field maps the address of a node to the one it points
to; the address 0 is the null pointer. The lemmas say which changes of the fields append a node or
take one out. -/
namespace Base.Linked

open List

/-- Following `next` from `head` visits the listed nodes and then arrives at
`tail`. -/
def Segment (next : Nat → Nat) : Nat → List Nat → Nat → Prop
  | head, [], tail => head = tail
  | head, node :: nodes, tail => head = node ∧ node ≠ 0 ∧ Segment next (next node) nodes tail

section Facts

variable {next next' : Nat → Nat} {head tail node : Nat} {nodes : List Nat}

@[simp] theorem segment_nil : Segment next head [] tail ↔ head = tail := Iff.rfl

@[simp] theorem segment_cons : Segment next head (node :: nodes) tail ↔
      head = node ∧ node ≠ 0 ∧ Segment next (next node) nodes tail := Iff.rfl

theorem segment_append {left right : List Nat} : Segment next head (left ++ right) tail ↔
      ∃ middle, Segment next head left middle ∧ Segment next middle right tail := by
  induction left generalizing head with
  | nil => simp
  | cons node left ih => simp [ih, and_assoc]

theorem Segment.ne_zero (h : Segment next head nodes tail) : ∀ node ∈ nodes, node ≠ 0 := by
  induction nodes generalizing head with
  | nil => simp
  | cons node nodes ih =>
    obtain ⟨-, hNode, hRest⟩ := h
    exact forall_mem_cons.mpr ⟨hNode, ih hRest⟩

theorem Segment.congr (h : Segment next head nodes tail)
    (hSame : ∀ node ∈ nodes, next' node = next node) : Segment next' head nodes tail := by
  induction nodes generalizing head with
  | nil => exact h
  | cons node nodes ih =>
    obtain ⟨hHead, hNode, hRest⟩ := h
    refine ⟨hHead, hNode, ?_⟩
    rw [hSame node (by simp)]
    exact ih hRest (fun x hx => hSame x (by simp [hx]))

theorem Segment.head_eq (h : Segment next head nodes 0) : head = nodes.head?.getD 0 := by
  cases nodes with
  | nil => exact h
  | cons node nodes => exact h.1

theorem Segment.head_mem (h : Segment next head nodes 0) : head = 0 ∨ head ∈ nodes := by
  cases nodes with
  | nil => exact .inl h
  | cons node nodes => exact .inr (h.1 ▸ mem_cons_self ..)

theorem Segment.head_eq_zero_iff (h : Segment next head nodes 0) : head = 0 ↔ nodes = [] := by
  cases nodes with
  | nil => simpa using h
  | cons node nodes => simp [h.1, h.2.1]

/-- The last node of a list is made to point somewhere else. -/
theorem Segment.relink_last {target : Nat} (h : Segment next head nodes tail)
    (hNodup : nodes.Nodup) (hNe : nodes ≠ [])
    (hNext : ∀ x ∈ nodes, next' x = if x = nodes.getLast?.getD 0 then target else next x) :
    Segment next' head nodes target := by
  obtain ⟨init, final, rfl⟩ := (eq_nil_or_concat nodes).resolve_left hNe
  simp only [concat_eq_append, getLast?_concat, Option.getD_some] at *
  obtain ⟨middle, hInit, hMiddle, hFinal, -⟩ := segment_append.mp h
  refine segment_append.mpr ⟨middle, hInit.congr fun x hx => ?_, hMiddle, hFinal, ?_⟩
  · have hApart : x ≠ final := (nodup_append.mp hNodup).2.2 x hx final (by simp)
    rw [hNext x (by simp [hx]), if_neg hApart]
  · exact (hNext final (by simp)).trans (if_pos rfl)

/-- A node is taken out by letting the one before it point to the one behind it. If it is the
first one, the list begins behind it. -/
theorem Segment.unlink {before after : List Nat} {link : Nat}
    (h : Segment next head (before ++ node :: after) 0) (hNodup : (before ++ node :: after).Nodup)
    (hLink : link = before.getLast?.getD 0)
    (hNext : ∀ x ∈ before ++ after, next' x = if x = link then next node else next x) :
    Segment next' (if link = 0 then next node else head) (before ++ after) 0 := by
  obtain ⟨middle, hBefore, -, -, hAfter⟩ := segment_append.mp h
  obtain ⟨hNodupBefore, -, hApart⟩ := nodup_append.mp hNodup
  have hKept (hNot : link ∉ after) : Segment next' (next node) after 0 :=
    hAfter.congr fun x hx => (hNext x (mem_append_right _ hx)).trans
      (if_neg (ne_of_mem_of_not_mem hx hNot))
  by_cases hNil : before = []
  · subst hNil
    obtain rfl : link = 0 := hLink
    exact hKept fun hMem => hAfter.ne_zero 0 hMem rfl
  · have hMem : link ∈ before := by
      rw [hLink, getLast?_eq_some_getLast hNil]
      exact getLast_mem hNil
    rw [if_neg (hBefore.ne_zero _ hMem), segment_append]
    refine ⟨next node, hBefore.relink_last hNodupBefore hNil fun x hx => ?_,
      hKept fun hIn => hApart _ hMem _ (mem_cons_of_mem _ hIn) rfl⟩
    rw [← hLink]
    exact hNext x (mem_append_left _ hx)

end Facts

structure Doubly (next previous : Nat → Nat) (first last : Nat) (nodes : List Nat) : Prop where
  forward : Segment next first nodes 0
  backward : Segment previous last nodes.reverse 0
  nodup : nodes.Nodup

namespace Doubly

variable {next next' previous previous' : Nat → Nat} {first last node : Nat}
variable {nodes before after : List Nat}

theorem empty : Doubly next previous 0 0 [] :=
  ⟨rfl, rfl, nodup_nil⟩

theorem congr (h : Doubly next previous first last nodes)
    (hNext : ∀ node ∈ nodes, next' node = next node)
    (hPrevious : ∀ node ∈ nodes, previous' node = previous node) :
    Doubly next' previous' first last nodes :=
  ⟨h.forward.congr hNext, h.backward.congr fun x hx => hPrevious x (mem_reverse.mp hx), h.nodup⟩

/-- A new node goes behind the last one: it points back to the old end, the
old end points to it, and nothing else changes. -/
theorem concat (h : Doubly next previous first last nodes) (hNode : node ≠ 0)
    (hFresh : node ∉ nodes) (hEnd : next' node = 0) (hBack : previous' node = last)
    (hNext : ∀ x ∈ nodes, next' x = if x = last then node else next x)
    (hPrevious : ∀ x ∈ nodes, previous' x = previous x) :
    Doubly next' previous' (if first = 0 then node else first) node (nodes ++ [node]) := by
  have hLast := h.backward.head_eq
  rw [head?_reverse] at hLast
  refine ⟨?_, ?_, ?_⟩
  · by_cases hNil : nodes = []
    · subst hNil
      simp [h.forward.head_eq, hNode, hEnd]
    · rw [if_neg (mt h.forward.head_eq_zero_iff.mp hNil), segment_append]
      refine ⟨node, h.forward.relink_last h.nodup hNil ?_, by simp [hNode, hEnd]⟩
      rwa [← hLast]
  · rw [reverse_concat]
    refine ⟨rfl, hNode, ?_⟩
    rw [hBack]
    exact h.backward.congr fun x hx => hPrevious x (mem_reverse.mp hx)
  · rw [nodup_append]
    refine ⟨h.nodup, by simp, ?_⟩
    intro x hx y hy
    rw [mem_singleton] at hy
    rintro rfl
    exact hFresh (hy ▸ hx)

/-- The lists on the two sides of a node. -/
theorem split (h : Doubly next previous first last (before ++ node :: after)) :
    Segment previous (previous node) before.reverse 0 ∧ Segment next (next node) after 0 := by
  obtain ⟨-, -, -, -, hAfter⟩ := segment_append.mp h.forward
  have hBack := h.backward
  rw [reverse_append, reverse_cons, append_assoc] at hBack
  obtain ⟨-, -, -, -, hBefore⟩ := segment_append.mp hBack
  exact ⟨hBefore, hAfter⟩

/-- A node is taken out by letting its neighbours point to each other. Where
a neighbour is missing the end pointer of the list takes the other one. -/
theorem remove (h : Doubly next previous first last (before ++ node :: after))
    (hNext : ∀ x ∈ before ++ after, next' x = if x = previous node then next node else next x)
    (hPrevious : ∀ x ∈ before ++ after,
      previous' x = if x = next node then previous node else previous x) :
    Doubly next' previous' (if previous node = 0 then next node else first)
      (if next node = 0 then previous node else last) (before ++ after) := by
  obtain ⟨hBefore, hAfter⟩ := h.split
  have hReverse : (before ++ node :: after).reverse = after.reverse ++ node :: before.reverse := by
    simp
  have hBackward := h.backward
  rw [hReverse] at hBackward
  refine ⟨h.forward.unlink h.nodup ?_ hNext, ?_,
    h.nodup.sublist ((sublist_cons_self ..).append_left _)⟩
  · rw [hBefore.head_eq, head?_reverse]
  · rw [reverse_append]
    refine hBackward.unlink (hReverse ▸ nodup_reverse.mpr h.nodup) ?_ fun x hx => hPrevious x ?_
    · rw [hAfter.head_eq, getLast?_reverse]
    · rw [← mem_reverse, reverse_append]
      exact hx

end Doubly

end Base.Linked
