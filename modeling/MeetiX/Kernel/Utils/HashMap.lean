import Mathlib.Data.List.Nodup
import MeetiX.Kernel.Types

/-! `HashMap` of the shared utilities: a fixed number of buckets, each a chain of entries, here a
list. A map carries the proofs that no key has two entries and that each entry sits in the bucket
of its hash, so its users only need the lemmas at the end. -/
namespace Kernel

open Function List

/-- `HashAble::hashcode`, a 32-bit value. -/
class HashAble (K : Type) where
  hashcode : K → Nat

/-- `hashcode(uint64_t)` at a signed key truncates to 32 bits. -/
instance : HashAble Int where
  hashcode value := (value % (wordSize : Int)).toNat

instance : HashAble Nat where
  hashcode value := wrap32 value

/-- `_bucketCount`, which no operation changes. -/
def bucketCount : Nat := 64

def bucketIndex {K : Type} [HashAble K] (key : K) : Nat := HashAble.hashcode key % bucketCount

structure HashMap (K V : Type) [HashAble K] where
  size : Nat
  buckets : Nat → List (K × V)
  nodup : ∀ i, ((buckets i).map Prod.fst).Nodup
  placed : ∀ i, ∀ entry ∈ buckets i, bucketIndex entry.1 = i

namespace HashMap

variable {K V : Type} [DecidableEq K] {key : K} {chain : List (K × V)} {value : V}
variable {entry : K × V}

/-- The walk of `get` over one chain. -/
def getFrom (key : K) : List (K × V) → Option V
  | [] => none
  | entry :: next => if entry.1 = key then some entry.2 else getFrom key next

/-- The walk of `add` over one chain: the value of an existing entry is
replaced, a new entry goes to the end. -/
def addTo (key : K) (value : V) : List (K × V) → List (K × V)
  | [] => [(key, value)]
  | entry :: next =>
    if entry.1 = key then (entry.1, value) :: next else entry :: addTo key value next

/-- The walk of `erase` over one chain. -/
def eraseFrom (key : K) : List (K × V) → List (K × V)
  | [] => []
  | entry :: next => if entry.1 = key then next else entry :: eraseFrom key next

theorem getFrom_eq_none_iff : getFrom key chain = none ↔ key ∉ chain.map Prod.fst := by
  induction chain with
  | nil => simp [getFrom]
  | cons entry next ih =>
    rw [getFrom, map_cons, mem_cons, not_or, ← ih]
    by_cases h : entry.1 = key
    · simp [h]
    · simp [h, Ne.symm h]

theorem getFrom_eq_some_iff (hNodup : (chain.map Prod.fst).Nodup) :
    getFrom key chain = some value ↔ (key, value) ∈ chain := by
  induction chain with
  | nil => simp [getFrom]
  | cons entry next ih =>
    obtain ⟨hEntry, hNext⟩ := nodup_cons.mp hNodup
    rw [getFrom]
    by_cases h : entry.1 = key
    · have hNot : (key, value) ∉ next := fun hMem =>
        hEntry (h ▸ mem_map.mpr ⟨_, hMem, rfl⟩)
      simp [h, hNot, Prod.ext_iff, eq_comm]
    · simp [h, ih hNext, Prod.ext_iff, Ne.symm h]

theorem getFrom_addTo (key other : K) (value : V) (chain : List (K × V)) :
    getFrom other (addTo key value chain) =
      if key = other then some value else getFrom other chain := by
  induction chain with
  | nil => simp [addTo, getFrom]
  | cons entry next ih =>
    by_cases h : entry.1 = key
    · by_cases ho : key = other <;> simp [addTo, getFrom, h, ho]
    · rw [addTo, if_neg h, getFrom, getFrom, ih]
      by_cases ho : key = other
      · simp [← ho, h]
      · simp [ho]

theorem getFrom_eraseFrom (key other : K) (chain : List (K × V))
    (hNodup : (chain.map Prod.fst).Nodup) :
    getFrom other (eraseFrom key chain) = if key = other then none else getFrom other chain := by
  induction chain with
  | nil => simp [eraseFrom, getFrom]
  | cons entry next ih =>
    obtain ⟨hEntry, hNext⟩ := nodup_cons.mp hNodup
    by_cases h : entry.1 = key
    · rw [eraseFrom, if_pos h, getFrom, h]
      split
      · rename_i ho
        rw [getFrom_eq_none_iff, ← ho, ← h]
        exact hEntry
      · rfl
    · rw [eraseFrom, if_neg h, getFrom, getFrom, ih hNext]
      by_cases ho : key = other
      · simp [← ho, h]
      · simp [ho]

theorem mem_addTo (h : entry ∈ addTo key value chain) : entry = (key, value) ∨ entry ∈ chain := by
  induction chain with
  | nil => simpa [addTo] using h
  | cons head next ih =>
    rw [addTo] at h
    split at h
    · rename_i hKey
      rcases mem_cons.mp h with rfl | h
      · exact .inl (by rw [hKey])
      · exact .inr (mem_cons_of_mem _ h)
    · rcases mem_cons.mp h with rfl | h
      · exact .inr (by simp)
      · exact (ih h).imp_right (mem_cons_of_mem _)

theorem eraseFrom_sublist (key : K) (chain : List (K × V)) :
    (eraseFrom key chain).Sublist chain := by
  induction chain with
  | nil => exact List.Sublist.refl _
  | cons entry next ih =>
    rw [eraseFrom]
    split
    · exact sublist_cons_self _ _
    · exact ih.cons_cons _

theorem nodup_addTo (h : (chain.map Prod.fst).Nodup) : ((addTo key value chain).map Prod.fst).Nodup := by
  induction chain with
  | nil => simp [addTo]
  | cons entry next ih =>
    obtain ⟨hEntry, hNext⟩ := nodup_cons.mp h
    rw [addTo]
    split
    · exact h
    · rename_i hKey
      refine nodup_cons.mpr ⟨fun hMem => ?_, ih hNext⟩
      obtain ⟨other, hOther, hFst⟩ := mem_map.mp hMem
      rcases mem_addTo hOther with rfl | hOther
      · exact hKey hFst.symm
      · exact hEntry (mem_map.mpr ⟨other, hOther, hFst⟩)

variable [HashAble K] {map : HashMap K V}

def empty : HashMap K V where
  size := 0
  buckets _ := []
  nodup := by simp
  placed := by simp

/-- `get`, with the value of the entry in place of a pointer to the entry. -/
def get (map : HashMap K V) (key : K) : Option V :=
  getFrom key (map.buckets (bucketIndex key))

/-- `add`. The size grows also when the key had an entry before. -/
def add (map : HashMap K V) (key : K) (value : V) : HashMap K V where
  size := wrap32 (map.size + 1)
  buckets := update map.buckets (bucketIndex key)
    (addTo key value (map.buckets (bucketIndex key)))
  nodup i := by
    rcases eq_or_ne i (bucketIndex key) with rfl | h
    · simpa using nodup_addTo (map.nodup _)
    · simpa [h] using map.nodup i
  placed i := by
    rcases eq_or_ne i (bucketIndex key) with rfl | h
    · intro entry hEntry
      rw [update_self] at hEntry
      rcases mem_addTo hEntry with rfl | hEntry
      · rfl
      · exact map.placed _ entry hEntry
    · simpa [h] using map.placed i

def erase (map : HashMap K V) (key : K) : HashMap K V where
  size := if (map.get key).isSome then sub32 map.size 1 else map.size
  buckets := update map.buckets (bucketIndex key)
    (eraseFrom key (map.buckets (bucketIndex key)))
  nodup i := by
    rcases eq_or_ne i (bucketIndex key) with rfl | h
    · rw [update_self]
      exact (map.nodup _).sublist ((eraseFrom_sublist _ _).map _)
    · simpa [h] using map.nodup i
  placed i := by
    rcases eq_or_ne i (bucketIndex key) with rfl | h
    · intro entry hEntry
      rw [update_self] at hEntry
      exact map.placed _ entry ((eraseFrom_sublist _ _).mem hEntry)
    · simpa [h] using map.placed i

/-- The assignment `entry->value = value` through the entry that `get`
returned, which leaves the size alone. -/
def assign (map : HashMap K V) (key : K) (value : V) : HashMap K V :=
  { map.add key value with size := map.size }

/-- The values that an iteration over the map meets. -/
def values (map : HashMap K V) : List V :=
  (range bucketCount).flatMap fun i => (map.buckets i).map Prod.snd

theorem get_of_mem_bucket {i : Nat} (h : entry ∈ map.buckets i) :
    map.get entry.1 = some entry.2 := by
  apply (getFrom_eq_some_iff (map.nodup _)).mpr
  rw [map.placed i entry h]
  exact h

theorem mem_values : value ∈ map.values ↔ ∃ key, map.get key = some value := by
  simp only [values, mem_flatMap, mem_range, mem_map]
  constructor
  · rintro ⟨i, -, ⟨key, value⟩, hEntry, rfl⟩
    exact ⟨key, get_of_mem_bucket hEntry⟩
  · rintro ⟨key, hKey⟩
    exact ⟨bucketIndex key, Nat.mod_lt _ (by decide), (key, value),
      (getFrom_eq_some_iff (map.nodup _)).mp hKey, rfl⟩

def keys (map : HashMap K V) : List K :=
  (range bucketCount).flatMap fun i => (map.buckets i).map Prod.fst

theorem mem_keys : key ∈ map.keys ↔ map.get key ≠ none := by
  simp only [keys, mem_flatMap, mem_range, get, ne_eq, getFrom_eq_none_iff, not_not]
  constructor
  · rintro ⟨i, -, hKey⟩
    obtain ⟨entry, hEntry, rfl⟩ := mem_map.mp hKey
    rw [map.placed i entry hEntry]
    exact hKey
  · intro hKey
    exact ⟨bucketIndex key, Nat.mod_lt _ (by decide), hKey⟩

omit [DecidableEq K] in
theorem nodup_keys (map : HashMap K V) : map.keys.Nodup := by
  rw [keys, nodup_flatMap]
  refine ⟨fun i _ => map.nodup i, ?_⟩
  refine nodup_range.imp fun {i j} hNe key hFirst hSecond => hNe ?_
  obtain ⟨first, hInFirst, rfl⟩ := mem_map.mp hFirst
  obtain ⟨second, hInSecond, hKey⟩ := mem_map.mp hSecond
  rw [← map.placed i first hInFirst, ← map.placed j second hInSecond, hKey]

/-- A value that no two keys share is met once. -/
theorem nodup_values (hApart : ∀ first second value, map.get first = some value →
    map.get second = some value → first = second) : map.values.Nodup := by
  have hKeys := map.nodup_keys
  rw [keys, ← map_flatMap] at hKeys
  rw [values, ← map_flatMap]
  refine List.Nodup.map_on (fun first hFirst second hSecond hValue => ?_) (List.Nodup.of_map _ hKeys)
  obtain ⟨i, -, hFirst⟩ := mem_flatMap.mp hFirst
  obtain ⟨j, -, hSecond⟩ := mem_flatMap.mp hSecond
  have hGet := get_of_mem_bucket hSecond
  rw [← hValue] at hGet
  exact Prod.ext (hApart _ _ _ (get_of_mem_bucket hFirst) hGet) hValue

section Lookup

variable (map : HashMap K V) (key other : K) (value : V)

@[simp] theorem get_empty : (empty : HashMap K V).get key = none := rfl

theorem get_add : (map.add key value).get other = if key = other then some value else map.get other := by
  by_cases h : bucketIndex other = bucketIndex key
  · simp only [get, add, h, update_self, getFrom_addTo]
  · have hNe : key ≠ other := fun hKey => h (by rw [hKey])
    simp [get, add, h, hNe]

theorem get_assign :
    (map.assign key value).get other = if key = other then some value else map.get other :=
  get_add map key other value

theorem get_erase : (map.erase key).get other = if key = other then none else map.get other := by
  by_cases h : bucketIndex other = bucketIndex key
  · simp only [get, erase, h, update_self]
    exact getFrom_eraseFrom key other _ (map.nodup _)
  · have hNe : key ≠ other := fun hKey => h (by rw [hKey])
    simp [get, erase, h, hNe]

@[simp] theorem get_add_self : (map.add key value).get key = some value := by
  simp [get_add]

@[simp] theorem get_assign_self : (map.assign key value).get key = some value := by
  simp [get_assign]

@[simp] theorem get_erase_self : (map.erase key).get key = none := by
  simp [get_erase]

variable {key other}

theorem get_add_of_ne (h : key ≠ other) : (map.add key value).get other = map.get other := by
  simp [get_add, h]

theorem get_assign_of_ne (h : key ≠ other) : (map.assign key value).get other = map.get other := by
  simp [get_assign, h]

theorem get_erase_of_ne (h : key ≠ other) : (map.erase key).get other = map.get other := by
  simp [get_erase, h]

end Lookup

end HashMap

end Kernel
