import MeetiX.Kernel.Utils.HashMap

/-! `HashMap` over a history of calls, seen as a finite map, and the iterator that goes over
its buckets. -/
namespace Kernel.HashMap

open List

variable {K V : Type} [DecidableEq K] [HashAble K]

inductive Op (K V : Type)
  | add (key : K) (value : V)
  | erase (key : K)
  | get (key : K)

variable (map : HashMap K V)

def execute : Op K V → HashMap K V
  | .add key value => map.add key value
  | .erase key => map.erase key
  | .get _ => map

/-- The iterator; what `_current` points to is given by the rest of its chain. -/
structure HashMapIterator (K V : Type) where
  bucketIndex : Nat
  current : List (K × V)

/-- The loop to the next bucket that has an entry, over the buckets that are left. -/
def seek (map : HashMap K V) : (left index : Nat) → HashMapIterator K V
  | 0, index => ⟨index, []⟩
  | left + 1, index =>
    if (map.buckets index).isEmpty then seek map left (index + 1)
    else ⟨index, map.buckets index⟩

def begin : HashMapIterator K V :=
  let it := map.seek bucketCount 0
  if it.current.isEmpty then ⟨0, []⟩ else it

/-- `operator ++`. There is no entry to leave at the end. -/
def increment (it : HashMapIterator K V) : Option (HashMapIterator K V) :=
  match it.current with
  | [] => none
  | [_] => some (map.seek (bucketCount - (it.bucketIndex + 1)) (it.bucketIndex + 1))
  | _ :: next => some { it with current := next }

omit [DecidableEq K] in
theorem le_seek (left index : Nat) : index ≤ (map.seek left index).bucketIndex := by
  fun_induction seek map left index with
  | case1 => exact Nat.le_refl _
  | case2 left index _ ih => omega
  | case3 => exact Nat.le_refl _

omit [DecidableEq K] in
/-- The iterator goes on to another bucket or to the next entry of its chain. -/
theorem increment_lt {map : HashMap K V} {it next : HashMapIterator K V}
    (h : map.increment it = some next) :
    Prod.Lex (· < ·) (· < ·) (bucketCount - next.bucketIndex, next.current.length)
      (bucketCount - it.bucketIndex, it.current.length) := by
  obtain ⟨index, _ | ⟨entry, _ | ⟨second, rest⟩⟩⟩ := it
  · cases h
  · cases h
    by_cases hLast : index < bucketCount
    · have hIndex := map.le_seek (bucketCount - (index + 1)) (index + 1)
      exact .left _ _ (by dsimp only; omega)
    · rw [show bucketCount - (index + 1) = 0 by omega, seek,
        show bucketCount - (index + 1) = bucketCount - index by omega]
      exact .right _ Nat.one_pos
  · cases h
    exact .right _ (Nat.lt_succ_self _)

/-- The entries met by a loop up to `end`. -/
def visit (map : HashMap K V) (it : HashMapIterator K V) : Option (List (K × V)) :=
  match it.current with
  | [] => some []
  | entry :: _ =>
    match _hNext : map.increment it with
    | none => none
    | some next => do return entry :: (← visit map next)
termination_by (bucketCount - it.bucketIndex, it.current.length)
decreasing_by exact increment_lt _hNext

def Op.changes (key : K) : Op K V → Bool
  | .add other _ | .erase other => decide (other = key)
  | .get _ => false

def Op.value : Op K V → Option V
  | .add _ value => some value
  | _ => none

/-- The value of the latest addition of the key, unless the key was erased since. -/
def latest (key : K) (ops : List (Op K V)) : Option V :=
  (ops.reverse.find? (Op.changes key)).bind Op.value

theorem get_execute (op : Op K V) (key : K) :
    (map.execute op).get key = if op.changes key then op.value else map.get key := by
  cases op with
  | add other value => simp [execute, get_add, Op.changes, Op.value]
  | erase other => simp [execute, get_erase, Op.changes, Op.value]
  | get other => rfl

theorem get_foldl_execute (ops : List (Op K V)) (key : K) : (ops.foldl execute map).get key =
      (ops.reverse.find? (Op.changes key)).elim (map.get key) Op.value := by
  induction ops generalizing map with
  | nil => rfl
  | cons op ops ih =>
    rw [foldl_cons, ih, get_execute, reverse_cons, find?_append]
    cases ops.reverse.find? (Op.changes key) with
    | some found => rfl
    | none => cases hOp : op.changes key <;> simp [find?, hOp]

variable (map : HashMap K V)

omit [DecidableEq K] in
/-- From the start of a bucket the loop meets the entries of this bucket and of those behind
it. -/
theorem visit_chain {index : Nat} {others chain : List (K × V)} (hChain : chain ≠ [])
    (hOthers : map.visit (map.seek (bucketCount - (index + 1)) (index + 1)) = some others) :
    map.visit ⟨index, chain⟩ = some (chain ++ others) := by
  induction chain with
  | nil => exact absurd rfl hChain
  | cons entry next ih =>
    rw [visit]
    cases next with
    | nil => simp [increment, hOthers]
    | cons second rest => simp [increment, ih]

omit [DecidableEq K] in
theorem visit_seek (left index : Nat) (hLeft : index + left = bucketCount) :
    map.visit (map.seek left index) = some ((range' index left).flatMap map.buckets) := by
  induction left generalizing index with
  | zero =>
    rw [seek, visit]
    rfl
  | succ left ih =>
    have hNext := ih (index + 1) (by omega)
    rw [range'_succ, flatMap_cons, seek]
    split
    · next hEmpty => rw [hNext, isEmpty_iff.mp hEmpty, nil_append]
    · next hSome =>
        apply map.visit_chain (mt isEmpty_iff.mpr hSome)
        rw [show bucketCount - (index + 1) = left by omega, hNext]

omit [DecidableEq K] in
theorem visit_begin : map.visit map.begin = some ((range bucketCount).flatMap map.buckets) := by
  rw [range_eq_range', ← map.visit_seek bucketCount 0 (Nat.zero_add _), begin]
  split
  · next hEmpty => rw [visit, visit, isEmpty_iff.mp hEmpty]
  · rfl

/-- After any calls `get` answers with the latest value of a key, every entry is in the bucket
of its hash, where its key has no other entry, and an iteration ends and meets each entry
once. -/
theorem history_is_map (ops : List (Op K V)) : let map := ops.foldl execute (empty : HashMap K V)
    (∀ key, map.get key = latest key ops) ∧
      (∀ i, ((map.buckets i).map Prod.fst).Nodup ∧
        ∀ entry ∈ map.buckets i, bucketIndex entry.1 = i) ∧
      ∃ entries, map.visit map.begin = some entries ∧ (entries.map Prod.fst).Nodup ∧
        ∀ key value, (key, value) ∈ entries ↔ map.get key = some value := by
  intro map
  refine ⟨fun key => ?_, fun i => ⟨map.nodup i, map.placed i⟩, _, map.visit_begin, ?_, ?_⟩
  · rw [get_foldl_execute, latest]
    cases ops.reverse.find? (Op.changes key) <;> rfl
  · rw [map_flatMap]
    exact map.nodup_keys
  · intro key value
    rw [mem_flatMap]
    constructor
    · rintro ⟨i, -, hEntry⟩
      exact get_of_mem_bucket hEntry
    · intro hGet
      exact ⟨bucketIndex key, mem_range.mpr (Nat.mod_lt _ (by decide)),
        (getFrom_eq_some_iff (map.nodup _)).mp hGet⟩

end Kernel.HashMap
