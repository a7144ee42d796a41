import Mathlib.Data.List.Find
import Mathlib.Data.List.TakeWhile
import MeetiX.Kernel.FileSystem.FsNode

/-! Paths as lists of components. `findExisting` reads its path character by character; it is
shown to resolve the components between the slashes one after the other. -/
namespace Kernel

open List Option

/-- The non-empty parts of a path between its slashes. -/
def components (path : CString) : List CString :=
  (path.splitOn slash).filter fun component => component ≠ []

section Components

theorem components_slash (path : CString) : components (slash :: path) = components path := by
  have hSplit : ([] ++ slash :: path).splitOn slash = [] :: path.splitOn slash :=
    splitOnP_append_cons_of_forall_mem (by simp) slash (by simp) path
  rw [nil_append] at hSplit
  simp [components, hSplit]

theorem components_dropWhile (path : CString) :
    components (path.dropWhile (· == slash)) = components path := by
  induction path with
  | nil => rfl
  | cons first rest ih =>
    by_cases h : first = slash
    · rw [h, components_slash, dropWhile_cons_of_pos (by simp), ih]
    · rw [dropWhile_cons_of_neg (by simpa using h)]

variable {path : CString}

theorem components_takeWhile (h : path.takeWhile (· != slash) ≠ []) : components path =
      path.takeWhile (· != slash) :: components (path.dropWhile (· != slash)) := by
  have hFree : ∀ x ∈ path.takeWhile (· != slash), (x == slash) = false := by
    intro x hx
    simpa using mem_takeWhile_imp hx
  have hPath : path.takeWhile (· != slash) ++ path.dropWhile (· != slash) = path :=
    takeWhile_append_dropWhile
  cases hRest : path.dropWhile (· != slash) with
  | nil =>
    rw [hRest, append_nil] at hPath
    have hSplit : path.splitOn slash = [path.takeWhile (· != slash)] := by
      conv_lhs => rw [← hPath]
      exact splitOnP_eq_singleton hFree
    have hNil : components [] = [] := rfl
    rw [hNil, components, hSplit]
    simp [h]
  | cons first rest =>
    have hFirst : first = slash := by
      have hHead := head_dropWhile_not (· != slash) (l := path) (by rw [hRest]; simp)
      simpa [hRest] using hHead
    rw [hRest, hFirst] at hPath
    have hSplit : path.splitOn slash =
        path.takeWhile (· != slash) :: rest.splitOn slash := by
      conv_lhs => rw [← hPath]
      exact splitOnP_append_cons_of_forall_mem hFree slash (by simp) rest
    rw [hFirst, components_slash]
    simp [components, hSplit, h]

theorem dropWhile_eq_nil_of_takeWhile
    (h : (path.dropWhile (· == slash)).takeWhile (· != slash) = []) :
    path.dropWhile (· == slash) = [] := by
  cases hRest : path.dropWhile (· == slash) with
  | nil => rfl
  | cons first rest =>
    have hHead := head_dropWhile_not (· == slash) (l := path) (by rw [hRest]; simp)
    have hFirst : first ≠ slash := by simpa [hRest] using hHead
    rw [hRest, takeWhile_cons_of_pos (by simpa using hFirst)] at h
    cases h

theorem length_dropWhile_lt (h : path.takeWhile (· != slash) ≠ []) :
    (path.dropWhile (· != slash)).length < path.length := by
  have hPath : path.takeWhile (· != slash) ++ path.dropWhile (· != slash) = path :=
    takeWhile_append_dropWhile
  have hLength := congrArg length hPath
  have hPos := length_pos_of_ne_nil h
  rw [length_append] at hLength
  omega

/-- A path has no components, or a first one and a shorter rest. -/
theorem components_cases (path : CString) :
    components path = [] ∨ ∃ name rest, components path = name :: components rest ∧ name ≠ [] ∧
      name.length + rest.length ≤ path.length := by
  have hDrop := (dropWhile_sublist (l := path) (· == slash)).length_le
  rw [← components_dropWhile path]
  by_cases hName : (path.dropWhile (· == slash)).takeWhile (· != slash) = []
  · left
    rw [dropWhile_eq_nil_of_takeWhile hName]
    rfl
  · refine .inr ⟨_, _, components_takeWhile hName, hName, ?_⟩
    rw [← length_append, takeWhile_append_dropWhile]
    exact hDrop

theorem length_components_le (path : CString) : (components path).length ≤ path.length := by
  induction hLength : path.length using Nat.strong_induction_on generalizing path with
  | _ n ih =>
    rcases components_cases path with hNone | ⟨name, rest, hComponents, hName, hShorter⟩
    · rw [hNone]
      exact Nat.zero_le _
    · have hPos := length_pos_of_ne_nil hName
      have hRest := ih _ (by omega) rest rfl
      rw [hComponents, length_cons]
      omega

theorem length_le_of_mem_components {name : CString} (h : name ∈ components path) :
    name.length ≤ path.length := by
  induction hLength : path.length using Nat.strong_induction_on generalizing path with
  | _ n ih =>
    rcases components_cases path with hNone | ⟨first, rest, hComponents, hFirst, hShorter⟩
    · rw [hNone] at h
      cases h
    · have hPos := length_pos_of_ne_nil hFirst
      rw [hComponents] at h
      rcases mem_cons.mp h with rfl | hRest
      · omega
      · have hLe := ih _ (by omega) hRest rfl
        omega

end Components

namespace Vfs

/-- The node behind `..`. -/
def up (vfs : Vfs) (node : Nat) : Nat := (vfs.parentOf node).getD node

/-- The node that a component leads to. -/
def step (vfs : Vfs) (node : Nat) (name : CString) : Option Nat :=
  if name = [dot, dot] then some (vfs.up node)
  else if name = [dot] then some node
  else vfs.findChild node name

/-- The components of a path resolved one by one. -/
def walk (vfs : Vfs) : Nat → List CString → Existing
  | node, [] => ⟨node, some node, []⟩
  | node, name :: rest =>
    match vfs.step node name with
    | none => ⟨node, none, name⟩
    | some next => vfs.walk next rest

theorem findExistingFrom_eq_walk (vfs : Vfs) {fuel : Nat} {path : CString}
    (h : path.length < fuel) (node : Nat) :
    vfs.findExistingFrom fuel node path = some (vfs.walk node (components path)) := by
  induction fuel generalizing node path with
  | zero => cases h
  | succ fuel ih =>
    have hLength := (dropWhile_sublist (l := path) (· == slash)).length_le
    rw [findExistingFrom, ← components_dropWhile path]
    by_cases hName : (path.dropWhile (· == slash)).takeWhile (· != slash) = []
    · rw [dropWhile_eq_nil_of_takeWhile hName]
      rfl
    · have hShorter := length_dropWhile_lt hName
      have hRest : ((path.dropWhile (· == slash)).dropWhile (· != slash)).length < fuel := by
        omega
      rw [if_neg hName, components_takeWhile hName, walk, step]
      split
      · exact ih hRest _
      · split
        · exact ih hRest _
        · cases vfs.findChild node
            ((path.dropWhile (· == slash)).takeWhile (· != slash)) with
          | none => rfl
          | some child => exact ih hRest child

theorem findExisting_eq_walk (vfs : Vfs) (absolutePath : CString) :
    vfs.findExisting absolutePath = some (vfs.walk root (components absolutePath)) :=
  findExistingFrom_eq_walk vfs (Nat.lt_succ_self _) root

section Walk

variable {vfs : Vfs}

variable {node child next id : Nat}

theorem step_eq_none {name : CString} : vfs.step node name = none ↔
    name ≠ [dot, dot] ∧ name ≠ [dot] ∧ vfs.findChild node name = none := by
  unfold step
  split
  · simp [*]
  · split <;> simp [*]

theorem step_eq_findChild {name : CString} (hUp : name ≠ [dot, dot]) (hDot : name ≠ [dot]) :
    vfs.step node name = vfs.findChild node name := by
  rw [step, if_neg hUp, if_neg hDot]

theorem walk_append {middle : Nat} {first : List CString} (second : List CString)
    (h : (vfs.walk node first).child = some middle) :
    vfs.walk node (first ++ second) = vfs.walk middle second := by
  induction first generalizing node with
  | nil =>
    cases h
    rfl
  | cons name rest ih =>
    rw [cons_append, walk]
    rw [walk] at h
    split at h
    · cases h
    · exact ih h

theorem Valid.isSome_up (h : vfs.Valid) (hNode : (vfs.nodes.get node).isSome) :
    (vfs.nodes.get (vfs.up node)).isSome := by
  obtain ⟨content, hContent⟩ := isSome_iff_exists.mp hNode
  rw [up, parentOf, hContent, bind_some]
  cases hParent : content.parent with
  | none => exact hNode
  | some parent => exact (h.parent node content hContent parent hParent).2

theorem Valid.isSome_findChild (h : vfs.Valid) {name : CString}
    (hChild : vfs.findChild node name = some child) : (vfs.nodes.get child).isSome := by
  rw [findChild] at hChild
  split at hChild
  · cases hChild
  · rename_i content hContent
    obtain ⟨found, hFound, -⟩ :=
      h.child node content hContent child (mem_of_find?_eq_some hChild)
    exact isSome_of_eq_some hFound

theorem Valid.isSome_step (h : vfs.Valid) (hNode : (vfs.nodes.get node).isSome) {name : CString}
    (hStep : vfs.step node name = some next) : (vfs.nodes.get next).isSome := by
  unfold step at hStep
  split at hStep
  · cases hStep
    exact h.isSome_up hNode
  · split at hStep
    · cases hStep
      exact hNode
    · exact h.isSome_findChild hStep

theorem Valid.isSome_walk (h : vfs.Valid) (hNode : (vfs.nodes.get node).isSome)
    (path : List CString) : (vfs.nodes.get (vfs.walk node path).parent).isSome ∧
      ∀ child, (vfs.walk node path).child = some child → (vfs.nodes.get child).isSome := by
  induction path generalizing node with
  | nil =>
    refine ⟨hNode, fun child hChild => ?_⟩
    cases hChild
    exact hNode
  | cons name rest ih =>
    rw [walk]
    split
    · exact ⟨hNode, fun child hChild => by cases hChild⟩
    · exact ih (h.isSome_step hNode ‹_›)

variable {parent : Nat} {delegate : Option FsDelegate} {type : FsNodeType} {physFsID : Nat}
  {name : CString}

variable (h : vfs.Valid) (hParent : (vfs.nodes.get parent).isSome)

include h hParent

theorem hasName_insert (other : CString) (hId : id ≠ vfs.nodeNextID) :
    (vfs.insert parent delegate type physFsID (some name)).2.hasName other id =
      vfs.hasName other id := by
  rw [hasName, hasName, get_insert h hParent, if_neg hId]
  split
  · cases vfs.nodes.get id <;> rfl
  · rfl

theorem parentOf_insert (hId : id ≠ vfs.nodeNextID) :
    (vfs.insert parent delegate type physFsID (some name)).2.parentOf id = vfs.parentOf id := by
  rw [parentOf, parentOf, get_insert h hParent, if_neg hId]
  split
  · cases vfs.nodes.get id <;> rfl
  · rfl

/-- A new node is found under its parent, and all others as before. -/
theorem findChild_insert (hId : id ≠ vfs.nodeNextID) (other : CString) :
    (vfs.insert parent delegate type physFsID (some name)).2.findChild id other =
      if id = parent ∧ other = name then some vfs.nodeNextID else vfs.findChild id other := by
  have hOld : ∀ node, vfs.nodes.get id = some node →
      node.children.find? ((vfs.insert parent delegate type physFsID (some name)).2.hasName other) =
        node.children.find? (vfs.hasName other) := by
    intro node hNode
    apply find?_congr
    intro child hChild
    obtain ⟨found, hFound, -⟩ := h.child id node hNode child hChild
    have hLt := h.lt_next child found hFound
    exact hasName_insert h hParent other (by omega)
  have hNew : (vfs.insert parent delegate type physFsID (some name)).2.hasName other
      vfs.nodeNextID = decide (name = other) := by
    rw [hasName, get_insert h hParent]
    simp
  rw [findChild, findChild, get_insert h hParent, if_neg hId]
  by_cases hEq : id = parent
  · subst hEq
    obtain ⟨node, hNode⟩ := isSome_iff_exists.mp hParent
    rw [if_pos rfl, hNode, map_some]
    dsimp only
    by_cases hName : other = name
    · rw [find?_cons_of_pos (by rw [hNew]; simp [hName]), if_pos ⟨rfl, hName⟩]
    · rw [find?_cons_of_neg (by rw [hNew]; simpa using Ne.symm hName), hOld node hNode,
        if_neg fun hBoth => hName hBoth.2]
  · rw [if_neg hEq, if_neg fun hBoth => hEq hBoth.1]
    cases hNode : vfs.nodes.get id with
    | none => rfl
    | some node => exact hOld node hNode

theorem findChild_insert_new :
    (vfs.insert parent delegate type physFsID (some name)).2.findChild parent name =
      some vfs.nodeNextID := by
  obtain ⟨node, hNode⟩ := isSome_iff_exists.mp hParent
  rw [findChild_insert h hParent (Nat.ne_of_lt (h.lt_next _ _ hNode)), if_pos ⟨rfl, rfl⟩]

theorem findChild_insert_old (hMissing : vfs.findChild parent name = none) {other : CString}
    (hFind : vfs.findChild id other = some child) :
    (vfs.insert parent delegate type physFsID (some name)).2.findChild id other = some child := by
  have hId : id ≠ vfs.nodeNextID := by
    rintro rfl
    rw [findChild, h.get_nodeNextID] at hFind
    cases hFind
  rw [findChild_insert h hParent hId, if_neg, hFind]
  rintro ⟨rfl, rfl⟩
  rw [hMissing] at hFind
  cases hFind

theorem step_insert (hMissing : vfs.findChild parent name = none) {component : CString}
    (hNode : (vfs.nodes.get node).isSome) (hStep : vfs.step node component = some next) :
    (vfs.insert parent delegate type physFsID (some name)).2.step node component = some next := by
  obtain ⟨content, hContent⟩ := isSome_iff_exists.mp hNode
  have hId : node ≠ vfs.nodeNextID := Nat.ne_of_lt (h.lt_next node content hContent)
  unfold step up at hStep ⊢
  rw [parentOf_insert h hParent hId]
  split
  · rwa [if_pos ‹_›] at hStep
  · rw [if_neg ‹_›] at hStep
    split
    · rwa [if_pos ‹_›] at hStep
    · rw [if_neg ‹_›] at hStep
      exact findChild_insert_old h hParent hMissing hStep

/-- A node for a component that was missing does not change what is found
before it. -/
theorem walk_insert (hMissing : vfs.findChild parent name = none) {path : List CString}
    (hNode : (vfs.nodes.get node).isSome) (hWalk : (vfs.walk node path).child = some child) :
    ((vfs.insert parent delegate type physFsID (some name)).2.walk node path).child =
      some child := by
  induction path generalizing node with
  | nil => exact hWalk
  | cons component rest ih =>
    rw [walk] at hWalk ⊢
    split at hWalk
    · cases hWalk
    · rename_i hStep
      rw [step_insert h hParent hMissing hNode hStep]
      exact ih (h.isSome_step hNode hStep) hWalk

end Walk

section Delegate

variable {vfs : Vfs} {id : Nat} {node : FsNode}

/-- The walk over the parents does not need more rounds than the identifier says. -/
theorem Valid.getDelegateFrom_eq (h : vfs.Valid) {fuel : Nat} (hFuel : id < fuel) :
    vfs.getDelegateFrom fuel id = vfs.getDelegate id := by
  induction id using Nat.strong_induction_on generalizing fuel with
  | _ id ih =>
    obtain ⟨fuel, rfl⟩ : ∃ k, fuel = k + 1 := ⟨fuel - 1, by omega⟩
    rw [getDelegate, getDelegateFrom, getDelegateFrom]
    cases hNode : vfs.nodes.get id with
    | none => rfl
    | some node =>
      dsimp only
      cases node.delegate with
      | some delegate => rfl
      | none =>
        cases hParent : node.parent with
        | none => rfl
        | some parent =>
          have hLt := (h.parent id node hNode parent hParent).1
          exact (ih parent hLt (by omega)).trans (ih parent hLt hLt).symm

theorem Valid.getDelegate_eq (h : vfs.Valid) (hNode : vfs.nodes.get id = some node) :
    vfs.getDelegate id = node.delegate.or (node.parent.bind vfs.getDelegate) := by
  rw [getDelegate, getDelegateFrom, hNode]
  dsimp only
  cases node.delegate with
  | some delegate => rfl
  | none =>
    cases hParent : node.parent with
    | none => rfl
    | some parent => exact h.getDelegateFrom_eq (h.parent id node hNode parent hParent).1

variable {parent : Nat} {delegate : Option FsDelegate} {type : FsNodeType} {physFsID : Nat}
  {name : Option CString}

theorem Valid.getDelegate_insert (h : vfs.Valid) (hParent : (vfs.nodes.get parent).isSome)
    (hNode : vfs.nodes.get id = some node) :
    (vfs.insert parent delegate type physFsID name).2.getDelegate id = vfs.getDelegate id := by
  induction id using Nat.strong_induction_on generalizing node with
  | _ id ih =>
    rw [(h.insert hParent).getDelegate_eq (get_insert_old h hParent hNode), h.getDelegate_eq hNode,
      delegate_linked, parent_linked]
    cases hOwn : node.parent with
    | none => rfl
    | some up =>
      obtain ⟨hLt, hSome⟩ := h.parent id node hNode up hOwn
      obtain ⟨upper, hUpper⟩ := isSome_iff_exists.mp hSome
      rw [bind_some, bind_some, ih up hLt hUpper]

theorem Valid.getDelegate_insert_new (h : vfs.Valid) (hParent : (vfs.nodes.get parent).isSome) :
    (vfs.insert parent delegate type physFsID name).2.getDelegate vfs.nodeNextID =
      delegate.or (vfs.getDelegate parent) := by
  obtain ⟨node, hNode⟩ := isSome_iff_exists.mp hParent
  rw [(h.insert hParent).getDelegate_eq (get_insert_new h hParent), bind_some,
    h.getDelegate_insert hParent hNode]

end Delegate

end Vfs

end Kernel
