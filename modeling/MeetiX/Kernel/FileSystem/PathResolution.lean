import MeetiX.Kernel.FileSystem.Open

/-! What a path means: a component leads from node to node, a path from the root through its
components. `findExisting` finds the node it leads to, or the one where it cannot go on. -/
namespace Kernel.Vfs

open Base FileSystem

def IsFirstChild (vfs : Vfs) (node : Nat) (name : CString) (child : Nat) : Prop :=
  ∃ content before after, vfs.nodes.get node = some content ∧
    content.children = before ++ child :: after ∧ vfs.hasName name child = true ∧
    ∀ other ∈ before, vfs.hasName name other = false

inductive Resolves (vfs : Vfs) : Nat → CString → Nat → Prop
  | here (node : Nat) : Resolves vfs node [dot] node
  | up {node parent : Nat} (hParent : vfs.parentOf node = some parent) :
      Resolves vfs node [dot, dot] parent
  | top : Resolves vfs root [dot, dot] root
  | child {node child : Nat} {name : CString} (hDot : name ≠ [dot]) (hUp : name ≠ [dot, dot])
      (hChild : vfs.IsFirstChild node name child) : Resolves vfs node name child

section Resolution

variable {vfs : Vfs} {node next : Nat} {name : CString}

theorem findChild_eq_some_iff {child : Nat} :
    vfs.findChild node name = some child ↔ vfs.IsFirstChild node name child := by
  rw [findChild, IsFirstChild]
  cases hNode : vfs.nodes.get node with
  | none => simp
  | some content =>
    rw [List.find?_eq_some_iff_append]
    constructor
    · rintro ⟨hName, before, after, hChildren, hBefore⟩
      exact ⟨content, before, after, rfl, hChildren, hName, by simpa using hBefore⟩
    · rintro ⟨_, before, after, hContent, hChildren, hName, hBefore⟩
      cases hContent
      exact ⟨hName, before, after, hChildren, by simpa using hBefore⟩

theorem Valid.parentOf_root (h : vfs.Valid) : vfs.parentOf root = none := by
  rw [parentOf]
  cases hRoot : vfs.nodes.get root with
  | none => rfl
  | some content =>
    cases hParent : content.parent with
    | none => exact hParent
    | some parent => exact absurd (h.parent root content hRoot parent hParent).1 (Nat.not_lt_zero _)

theorem Resolves.step_eq (h : vfs.Valid) (hStep : Resolves vfs node name next) :
    vfs.step node name = some next := by
  cases hStep with
  | here => rfl
  | up hParent => rw [step, if_pos rfl, Vfs.up, hParent, Option.getD_some]
  | top => rw [step, if_pos rfl, Vfs.up, h.parentOf_root, Option.getD_none]
  | child hDot hUp hChild => rw [step_eq_findChild hUp hDot, findChild_eq_some_iff.mpr hChild]

theorem walk_of_run (h : vfs.Valid) {names : List CString} (run : Run (Resolves vfs) node names next) :
    vfs.walk node names = ⟨next, some next, []⟩ := by
  induction run with
  | nil => rfl
  | snoc prior last ih =>
    rw [walk_append _ (by rw [ih]), walk, last.step_eq h]
    rfl

/-- The parents of a node lead up to the root. -/
inductive Rooted (vfs : Vfs) : Nat → Prop
  | top : Rooted vfs root
  | under {node parent : Nat} (hParent : vfs.parentOf node = some parent) (hUp : Rooted vfs parent) :
      Rooted vfs node

theorem Rooted.resolves (h : vfs.Valid) (hRooted : Rooted vfs node)
    (hStep : Resolves vfs node name next) : Rooted vfs next := by
  cases hStep with
  | here => exact hRooted
  | top => exact hRooted
  | up hParent =>
    cases hRooted with
    | top =>
      rw [h.parentOf_root] at hParent
      cases hParent
    | under hOwn hUp =>
      cases hOwn.symm.trans hParent
      exact hUp
  | child hDot hUp hChild =>
    obtain ⟨content, before, after, hContent, hChildren, -, -⟩ := hChild
    obtain ⟨found, hFound, hParent⟩ := h.child node content hContent next (by simp [hChildren])
    exact .under (by rw [parentOf, hFound, Option.bind_some, hParent]) hRooted

/-- Where a component does not lead anywhere, the walk stops. -/
theorem walk_of_missing (hRooted : Rooted vfs node) (hMissing : ∀ next, ¬ Resolves vfs node name next)
    (rest : List CString) : vfs.walk node (name :: rest) = ⟨node, none, name⟩ := by
  have hUp : name ≠ [dot, dot] := by
    rintro rfl
    cases hRooted with
    | top => exact hMissing _ .top
    | under hParent _ => exact hMissing _ (.up hParent)
  have hDot : name ≠ [dot] := by
    rintro rfl
    exact hMissing _ (.here node)
  rw [walk, step_eq_findChild hUp hDot]
  cases hFind : vfs.findChild node name with
  | none => rfl
  | some child => exact absurd (.child hDot hUp (findChild_eq_some_iff.mp hFind)) (hMissing child)

end Resolution

/-- The search ends. When the components of the path lead to a node, this is the child; otherwise
there is none, and the parent and the name say where. No component is too long for the buffer. -/
theorem findExisting_resolves {vfs : Vfs} (h : vfs.Valid) {path : CString}
    (hPath : path.length < pathMax) :
    ∃ result, vfs.findExisting path = some result ∧
      (∀ node, Run (Resolves vfs) root (components path) node → result = ⟨node, some node, []⟩) ∧
      (∀ before name after node, components path = before ++ name :: after →
        Run (Resolves vfs) root before node → (∀ next, ¬ Resolves vfs node name next) →
        result = ⟨node, none, name⟩) ∧
      ∀ name ∈ components path, name.length < pathMax := by
  refine ⟨_, findExisting_eq_walk vfs path, fun node run => walk_of_run h run, ?_, ?_⟩
  · intro before name after node hSplit run hMissing
    have hRooted : Rooted vfs node := run.invariant .top fun _ _ _ hRooted => hRooted.resolves h
    rw [hSplit, walk_append _ (by rw [walk_of_run h run]), walk_of_missing hRooted hMissing]
  · intro name hName
    exact (length_le_of_mem_components hName).trans_lt hPath

/-- The path `/mount/./../x` in the tree of a new file system leads to the root and not to
a child of it. -/
theorem findExisting_resolves_mount :
    ∃ result, initial.findExisting [47, 109, 111, 117, 110, 116, 47, 46, 47, 46, 46, 47, 120] =
        some result ∧ result = ⟨root, none, [120]⟩ := by
  obtain ⟨result, hResult, -, hMissing, -⟩ := @findExisting_resolves initial initial_valid
    [47, 109, 111, 117, 110, 116, 47, 46, 47, 46, 46, 47, 120] (by decide)
  have hMount := Run.single (Resolves.child (by decide) (by decide) (findChild_eq_some_iff.mp
    (show initial.findChild root mountName = some mountRoot by decide)))
  have hBack := Run.snoc (Run.snoc hMount (.here _))
    (.up (show initial.parentOf mountRoot = some root by decide))
  refine ⟨result, hResult, hMissing _ _ [] root (by decide) hBack fun next hNext => ?_⟩
  cases hNext with
  | child _ _ hChild =>
    have hNone : initial.findChild root [120] = none := by decide
    rw [findChild_eq_some_iff.mpr hChild] at hNone
    cases hNone

end Kernel.Vfs
