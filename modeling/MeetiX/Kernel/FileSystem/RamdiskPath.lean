import MeetiX.Kernel.FileSystem.FsPath
import MeetiX.Kernel.FileSystem.Ramdisk

/-! Paths on the ramdisk. The headers form a tree through the identifiers of
their parents, and `findAbsolute` is shown to follow the components of its path
in this tree. -/
namespace Kernel.Ramdisk

open List

variable (ramdisk : Ramdisk)

/-- The first header with a name below an identifier. -/
def childOf (id : Nat) (name : CString) : Option RamdiskEntry :=
  ramdisk.headers.find? fun current => current.parentid = id ∧ current.name = name

def lookup (ramdisk : Ramdisk) : RamdiskEntry → List CString → Option RamdiskEntry
  | node, [] => some node
  | node, name :: rest => (ramdisk.childOf node.id name).bind fun child => ramdisk.lookup child rest

def maximumPathLength : Nat := 512

/-- `findChild` of a node that may be null. -/
def findChildOf (parent : Option RamdiskEntry) (childName : CString) :
    Option (Option RamdiskEntry) :=
  parent.bind fun parent => ramdisk.findChild parent childName

/-- The loop of `findRelative` with what is left in its buffer. -/
def findRelativeFrom (ramdisk : Ramdisk) :
    Nat → Option RamdiskEntry → CString → Option (Option RamdiskEntry)
  | 0, _, _ => none
  | fuel + 1, currentNode, buf =>
    if buf = [] then some currentNode
    else if slash ∈ buf then
      let childpath := buf.takeWhile (· != slash)
      let buf := (buf.dropWhile (· != slash)).drop 1
      if childpath = [] then ramdisk.findRelativeFrom fuel currentNode buf
      else
        match ramdisk.findChildOf currentNode childpath with
        | none => none
        | some child => ramdisk.findRelativeFrom fuel child buf
    else ramdisk.findChildOf currentNode buf

/-- `findRelative`, without a result where it follows a null pointer or writes
behind its buffer. Every round but the last reads a character. -/
def findRelative (node : RamdiskEntry) (path : CString) : Option (Option RamdiskEntry) :=
  if maximumPathLength ≤ path.length then none
  else ramdisk.findRelativeFrom (path.length + 1) (some node) path

def findAbsolute (path : CString) : Option (Option RamdiskEntry) :=
  ramdisk.findRelative ramdisk.root path

section Find

variable {ramdisk : Ramdisk} {node entry : RamdiskEntry}
variable {path : CString} {names : List CString}

theorem mem_of_childOf {id : Nat} {name : CString} (h : ramdisk.childOf id name = some entry) :
    entry ∈ ramdisk.headers ∧ entry.parentid = id ∧ entry.name = name := by
  have hFound := find?_some h
  exact ⟨mem_of_find?_eq_some h, by simpa using hFound⟩

theorem findChildOf_eq (name : CString) : ramdisk.findChildOf (some node) name =
      if ramdisk.headers = [] then none else some (ramdisk.childOf node.id name) := by
  rw [findChildOf, Option.bind_some, findChild, childOf]
  cases ramdisk.headers <;> rfl

theorem childOf_of_empty (h : ramdisk.headers = []) (id : Nat) (name : CString) :
    ramdisk.childOf id name = none := by
  rw [childOf, h, find?_nil]

@[simp] theorem findChildOf_none (name : CString) : ramdisk.findChildOf none name = none := rfl

theorem components_drop_slash (h : path.takeWhile (· != slash) ≠ []) :
    components path = path.takeWhile (· != slash) ::
      components ((path.dropWhile (· != slash)).drop 1) := by
  rw [components_takeWhile h]
  cases hRest : path.dropWhile (· != slash) with
  | nil => rfl
  | cons first rest =>
    have hHead := head_dropWhile_not (· != slash) (l := path) (by rw [hRest]; simp)
    have hFirst : first = slash := by simpa [hRest] using hHead
    rw [hFirst, components_slash, drop_one, tail_cons]

theorem components_of_not_mem (h : slash ∉ path) (hNe : path ≠ []) : components path = [path] := by
  have hTake : path.takeWhile (· != slash) = path := by
    rw [takeWhile_eq_self_iff]
    intro x hx
    simpa using ne_of_mem_of_not_mem hx h
  have hDrop : path.dropWhile (· != slash) = [] := by
    rw [dropWhile_eq_nil_iff]
    intro x hx
    simpa using ne_of_mem_of_not_mem hx h
  rw [components_takeWhile (by rwa [hTake]), hTake, hDrop]
  rfl

/-- The loop calls `findChild` for one component after another. A slash in front
of a component changes nothing. -/
theorem findRelativeFrom_eq {fuel : Nat} (h : path.length < fuel)
    (currentNode : Option RamdiskEntry) :
    ramdisk.findRelativeFrom fuel currentNode path =
      (components path).foldlM ramdisk.findChildOf currentNode := by
  induction fuel generalizing currentNode path with
  | zero => cases h
  | succ fuel ih =>
    rw [findRelativeFrom]
    by_cases hEmpty : path = []
    · subst hEmpty
      rfl
    · rw [if_neg hEmpty]
      by_cases hSlash : slash ∈ path
      · have hShorter : ((path.dropWhile (· != slash)).drop 1).length < fuel := by
          have hDrop := (dropWhile_sublist (l := path) (· != slash)).length_le
          have hPos := length_pos_of_ne_nil hEmpty
          rw [length_drop]
          omega
        simp only [if_pos hSlash, ih hShorter]
        split
        · rename_i hName
          obtain ⟨first, rest, rfl⟩ := exists_cons_of_ne_nil hEmpty
          obtain rfl : first = slash := by simpa using hName
          simp [components_slash]
        · rename_i hName
          rw [components_drop_slash hName, foldlM_cons]
          cases ramdisk.findChildOf currentNode (path.takeWhile (· != slash)) <;> rfl
      · simp [if_neg hSlash, components_of_not_mem hSlash hEmpty]

theorem foldlM_findChildOf_eq_iff :
    names.foldlM ramdisk.findChildOf (some node) = some (some entry) ↔
      ramdisk.lookup node names = some entry := by
  induction names generalizing node with
  | nil => simp [lookup]
  | cons name rest ih =>
    rw [foldlM_cons, lookup, findChildOf_eq]
    split
    · rename_i hHeaders
      simp [childOf_of_empty hHeaders]
    · cases ramdisk.childOf node.id name with
      | none => cases rest <;> simp
      | some child => simpa using ih

/-- The calls of `findChild` follow the path as far as it leads, unless there is
nothing to search or a component behind a missing one is asked for. -/
theorem foldlM_findChildOf_eq_lookup_iff :
    names.foldlM ramdisk.findChildOf (some node) = some (ramdisk.lookup node names) ↔
      names = [] ∨ ramdisk.headers ≠ [] ∧ (ramdisk.lookup node names.dropLast).isSome := by
  induction names generalizing node with
  | nil => simp [lookup]
  | cons name rest ih =>
    rw [foldlM_cons, lookup, findChildOf_eq]
    split
    · rename_i hHeaders
      simp [hHeaders]
    · rename_i hHeaders
      cases rest with
      | nil => cases ramdisk.childOf node.id name <;> simp [hHeaders, lookup]
      | cons second rest =>
        rw [dropLast_cons_of_ne_nil (cons_ne_nil _ _), lookup]
        cases ramdisk.childOf node.id name with
        | none => simp
        | some child => simpa using ih

/-- A path that fits in the buffer is followed component by component, with null for the first one
that does not exist, exactly when it has no components, or the ramdisk has entries and every
component but the last exists. Otherwise `findChild` is called with a null pointer or without a
header. -/
theorem findRelative_follows_iff (ramdisk : Ramdisk) (node : RamdiskEntry) (path : CString)
    (hShort : path.length < maximumPathLength) :
    ramdisk.findRelative node path = some (ramdisk.lookup node (components path)) ↔
      components path = [] ∨
        ramdisk.headers ≠ [] ∧ (ramdisk.lookup node (components path).dropLast).isSome := by
  rw [findRelative, if_neg (Nat.not_le.mpr hShort), findRelativeFrom_eq (Nat.lt_succ_self _)]
  exact foldlM_findChildOf_eq_lookup_iff

/-- The file `a` of a ramdisk with nothing else on it. -/
theorem findRelative_follows_iff_file :
    let file : RamdiskEntry := ⟨.file, 1, 0, [97], 0, none, true, 0⟩
    (⟨rootEntry, [file], 2⟩ : Ramdisk).findRelative rootEntry [slash, 97] = some (some file) :=
  (findRelative_follows_iff ⟨rootEntry, [⟨.file, 1, 0, [97], 0, none, true, 0⟩], 2⟩ rootEntry
    [slash, 97] (by decide)).mpr (.inr (by decide))

/-- On a ramdisk without a folder `b` the path `b/a` leads `findChild` to a null
pointer, where its answer should be null. -/
theorem findRelative_missing_folder :
    let ramdisk : Ramdisk := ⟨rootEntry, [⟨.file, 1, 0, [97], 0, none, true, 0⟩], 2⟩
    ramdisk.findRelative rootEntry [98, slash, 97] = none ∧
      ramdisk.lookup rootEntry (components [98, slash, 97]) = none := by
  decide

/-- `findAbsolute` finds what is at the end of the components of its path. -/
theorem findAbsolute_eq_iff :
    ramdisk.findAbsolute path = some (some entry) ↔ path.length < maximumPathLength ∧
      ramdisk.lookup ramdisk.root (components path) = some entry := by
  rw [findAbsolute, findRelative]
  split
  · rename_i hLong
    exact iff_of_false nofun fun hBoth => absurd hBoth.1 (Nat.not_lt.mpr hLong)
  · rename_i hShort
    rw [findRelativeFrom_eq (Nat.lt_succ_self _), foldlM_findChildOf_eq_iff,
      and_iff_right (Nat.not_le.mp hShort)]

theorem childOf_createChild (parent : RamdiskEntry) (filename : CString) (id : Nat) (name : CString) :
    (ramdisk.createChild parent filename).2.childOf id name =
      if parent.id = id ∧ filename = name then some (ramdisk.createChild parent filename).1
      else ramdisk.childOf id name := by
  rw [childOf, createChild]
  split
  · rename_i hNew
    rw [find?_cons_of_pos (by simpa using hNew)]
  · rename_i hNew
    rw [find?_cons_of_neg (by simpa using hNew)]
    rfl

/-- A child that was missing does not change what is found before it. -/
theorem lookup_createChild {parent : RamdiskEntry} {filename : CString}
    (hMissing : ramdisk.childOf parent.id filename = none)
    (h : ramdisk.lookup node names = some entry) :
    (ramdisk.createChild parent filename).2.lookup node names = some entry := by
  induction names generalizing node with
  | nil => exact h
  | cons name rest ih =>
    rw [lookup] at h ⊢
    obtain ⟨child, hChild, hRest⟩ := Option.bind_eq_some_iff.mp h
    rw [childOf_createChild, if_neg, hChild]
    · exact ih hRest
    · rintro ⟨hId, rfl⟩
      rw [← hId, hMissing] at hChild
      cases hChild

theorem lookup_append (first second : List CString) : ramdisk.lookup node (first ++ second) =
    (ramdisk.lookup node first).bind fun middle => ramdisk.lookup middle second := by
  induction first generalizing node with
  | nil => rfl
  | cons name rest ih =>
    rw [cons_append, lookup, lookup, Option.bind_assoc]
    congr 1
    funext child
    exact ih

end Find

end Kernel.Ramdisk
