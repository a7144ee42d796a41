import Mathlib.Data.List.Chain

/-! One left-to-right pass over a list that joins an element with its successor where the two fit
together. A joined element is compared with its new successor before the pass goes on. -/
namespace Base.Coalesce

open List

variable {α : Type*}

/-- The pass with `current` under the cursor and the rest of the list ahead. -/
def sweep (joins : α → α → Bool) (join : α → α → α) (current : α) : List α → List α
  | [] => [current]
  | next :: rest =>
    if joins current next then sweep joins join (join current next) rest
    else current :: sweep joins join next rest

def coalesce (joins : α → α → Bool) (join : α → α → α) : List α → List α
  | [] => []
  | current :: rest => sweep joins join current rest

section Facts

variable {joins : α → α → Bool} {join : α → α → α} {current next : α} {rest before after : List α}
variable {P : α → Prop}

theorem sweep_cons_of_joins (h : joins current next = true) :
    sweep joins join current (next :: rest) = sweep joins join (join current next) rest := by
  simp [sweep, h]

theorem sweep_cons_of_not_joins (h : joins current next = false) :
    sweep joins join current (next :: rest) = current :: sweep joins join next rest := by
  simp [sweep, h]

theorem sweep_ne_nil (current : α) (rest : List α) : sweep joins join current rest ≠ [] := by
  induction rest generalizing current with
  | nil => simp [sweep]
  | cons next rest ih =>
    rw [sweep]
    split
    · exact ih _
    · simp

theorem forall_sweep (hJoin : ∀ a b, joins a b = true → P a → P b → P (join a b))
    (current : α) (rest : List α) (h : ∀ a ∈ current :: rest, P a) :
    ∀ a ∈ sweep joins join current rest, P a := by
  induction rest generalizing current with
  | nil => simpa [sweep] using h
  | cons next rest ih =>
    have hCurrent : P current := h current (by simp)
    have hNext : P next := h next (by simp)
    have hRest : ∀ a ∈ rest, P a := fun a ha => h a (by simp [ha])
    rw [sweep]
    split
    · rename_i hj
      refine ih _ ?_
      intro a ha
      rcases mem_cons.mp ha with rfl | ha
      · exact hJoin _ _ hj hCurrent hNext
      · exact hRest a ha
    · intro a ha
      rcases mem_cons.mp ha with rfl | ha
      · exact hCurrent
      · refine ih next ?_ a ha
        intro b hb
        rcases mem_cons.mp hb with rfl | hb
        · exact hNext
        · exact hRest b hb

/-- The pass keeps a chain when a join inherits its links from its two parts. After it no element
fits together with its successor, if growing the successor does not make it fit. -/
theorem isChain_sweep {P : α → Prop} {R : α → α → Prop}
    (hP : ∀ a b, joins a b = true → P a → P b → P (join a b))
    (hLeft : ∀ x a b, joins a b = true →
      (R x a → R x (join a b)) ∧ joins x (join a b) = joins x a)
    (hRight : ∀ a b y, joins a b = true → P a → P b → R b y → R (join a b) y)
    (current : α) (rest : List α) (hAll : ∀ a ∈ current :: rest, P a)
    (h : (current :: rest).IsChain R) :
    (sweep joins join current rest).IsChain R ∧
      (sweep joins join current rest).IsChain fun a b => joins a b = false := by
  suffices hHead : ((sweep joins join current rest).IsChain R ∧
      (sweep joins join current rest).IsChain fun a b => joins a b = false) ∧
      ∀ x, ∀ y ∈ (sweep joins join current rest).head?,
        (R x current → R x y) ∧ joins x y = joins x current from hHead.1
  induction rest generalizing current with
  | nil => simp [sweep]
  | cons next rest ih =>
    obtain ⟨hLink, hRest⟩ := isChain_cons_cons.mp h
    obtain ⟨hPc, hPr⟩ := forall_mem_cons.mp hAll
    obtain ⟨hPn, hPt⟩ := forall_mem_cons.mp hPr
    rw [sweep]
    split
    · rename_i hj
      obtain ⟨hNext, hTail⟩ := isChain_cons.mp hRest
      have hJoined : (join current next :: rest).IsChain R :=
        isChain_cons.mpr ⟨fun y hy => hRight _ _ _ hj hPc hPn (hNext y hy), hTail⟩
      obtain ⟨hChains, hHead⟩ :=
        ih (join current next) (forall_mem_cons.mpr ⟨hP _ _ hj hPc hPn, hPt⟩) hJoined
      refine ⟨hChains, fun x y hy => ?_⟩
      obtain ⟨hKeep, hSame⟩ := hHead x y hy
      obtain ⟨hJoin, hJoins⟩ := hLeft x current next hj
      exact ⟨fun hx => hKeep (hJoin hx), hSame.trans hJoins⟩
    · rename_i hj
      obtain ⟨⟨hChain, hSwept⟩, hHead⟩ := ih next hPr hRest
      refine ⟨⟨hChain.cons fun y hy => (hHead current y hy).1 hLink, hSwept.cons fun y hy => ?_⟩,
        by simp⟩
      rw [(hHead current y hy).2]
      simpa using hj

/-- A part of a chain may be exchanged for one that has the same links. -/
theorem isChain_replace {R : α → α → Prop} {pieces : List α} {x : α}
    (h : (before ++ x :: after).IsChain R) (hPieces : pieces.IsChain R) (hNonempty : pieces ≠ [])
    (hFirst : ∀ a, R a x → ∀ p ∈ pieces.head?, R a p)
    (hLast : ∀ b, R x b → ∀ p ∈ pieces.getLast?, R p b) :
    (before ++ (pieces ++ after)).IsChain R := by
  obtain ⟨hBefore, hRest, hCross⟩ := isChain_append.mp h
  obtain ⟨hNext, hAfter⟩ := isChain_cons.mp hRest
  refine isChain_append.mpr ⟨hBefore, isChain_append.mpr ⟨hPieces, hAfter, ?_⟩, ?_⟩
  · exact fun p hp b hb => hLast b (hNext b hb) p hp
  · intro a ha p hp
    rw [head?_append_of_ne_nil _ hNonempty] at hp
    exact hFirst a (hCross a ha x rfl) p hp

/-- The pass leaves a list without fitting neighbours as it is. -/
theorem sweep_eq_self (current : α) (rest : List α)
    (h : (current :: rest).IsChain (fun a b => joins a b = false)) :
    sweep joins join current rest = current :: rest := by
  induction rest generalizing current with
  | nil => rfl
  | cons next rest ih =>
    rw [isChain_cons_cons] at h
    rw [sweep_cons_of_not_joins h.1, ih next h.2]

theorem exists_sweep_iff {Q : α → Prop} (hP : ∀ a b, joins a b = true → P a → P b → P (join a b))
    (hJoin : ∀ a b, joins a b = true → P a → P b → (Q (join a b) ↔ Q a ∨ Q b))
    (current : α) (rest : List α) (hAll : ∀ a ∈ current :: rest, P a) :
    (∃ a ∈ sweep joins join current rest, Q a) ↔ ∃ a ∈ current :: rest, Q a := by
  induction rest generalizing current with
  | nil => simp [sweep]
  | cons next rest ih =>
    have hPc : P current := hAll current (by simp)
    have hPn : P next := hAll next (by simp)
    have hPr : ∀ a ∈ next :: rest, P a := fun a ha => hAll a (mem_cons_of_mem _ ha)
    rw [sweep]
    split
    · rename_i hj
      rw [ih _ (forall_mem_cons.mpr ⟨hP _ _ hj hPc hPn, (forall_mem_cons.mp hPr).2⟩)]
      simp [hJoin _ _ hj hPc hPn, or_assoc]
    · rw [exists_mem_cons_iff, ih _ hPr, exists_mem_cons_iff (a := current)]

theorem filter_sweep {p : α → Bool}
    (hJoin : ∀ a b, joins a b = true → p a = false ∧ p b = false ∧ p (join a b) = false)
    (current : α) (rest : List α) :
    (sweep joins join current rest).filter p = (current :: rest).filter p := by
  induction rest generalizing current with
  | nil => rfl
  | cons next rest ih =>
    rw [sweep]
    split
    · rename_i hj
      obtain ⟨ha, hb, hab⟩ := hJoin _ _ hj
      rw [ih]
      simp [ha, hb, hab]
    · rw [filter_cons, ih, filter_cons (x := current)]

/-- A single fitting pair in a list that is otherwise swept is joined, and
nothing else happens. -/
theorem coalesce_append_cons_cons {a b : α} (hj : joins a b = true)
    (hBefore : (before ++ [a]).IsChain (fun x y => joins x y = false))
    (hAfter : (join a b :: after).IsChain (fun x y => joins x y = false)) :
    coalesce joins join (before ++ a :: b :: after) = before ++ join a b :: after := by
  have hPair : sweep joins join a (b :: after) = join a b :: after := by
    rw [sweep_cons_of_joins hj, sweep_eq_self _ _ hAfter]
  cases before with
  | nil => exact hPair
  | cons first before =>
    change sweep joins join first (before ++ a :: b :: after) = _
    induction before generalizing first with
    | nil =>
      have hFirst : joins first a = false := by simpa using hBefore
      rw [nil_append, sweep_cons_of_not_joins hFirst, hPair]
      rfl
    | cons second before ih =>
      simp only [cons_append, isChain_cons_cons] at hBefore
      rw [cons_append, sweep_cons_of_not_joins hBefore.1, ih second (by simpa using hBefore.2)]
      rfl

end Facts

end Base.Coalesce
