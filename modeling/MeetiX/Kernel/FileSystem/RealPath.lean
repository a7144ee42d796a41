import MeetiX.Kernel.FileSystem.Open

/-! The path of a node. `getRealPathToNode` builds it from the end, following the parents;
`findExisting` reads it from its start. The two are inverse to each other where every node on the
way is the one that its parent has under its name. -/
namespace Kernel

open Function List
open Vfs (root mountRoot)

/-- A name that stands for itself in a path. -/
structure PlainName (name : CString) : Prop where
  nonempty : name ≠ []
  slash_free : slash ∉ name
  not_dot : name ≠ [dot]
  not_up : name ≠ [dot, dot]

/-- The names of a path, each with a slash behind it. -/
def joined (names : List CString) : CString := names.flatMap (· ++ [slash])

theorem joined_append (first second : List CString) :
    joined (first ++ second) = joined first ++ joined second :=
  flatMap_append

theorem joined_singleton (name : CString) : joined [name] = name ++ [slash] := by
  simp [joined]

section Components

variable {name : CString}

theorem bne_slash (h : slash ∉ name) : ∀ byte ∈ name, (byte != slash) = true :=
  fun _ hByte => bne_iff_ne.mpr (ne_of_mem_of_not_mem hByte h)

theorem takeWhile_name (h : slash ∉ name) (rest : CString) :
    (name ++ slash :: rest).takeWhile (· != slash) = name ∧
      (name ++ slash :: rest).dropWhile (· != slash) = slash :: rest := by
  have hFree := bne_slash h
  constructor
  · rw [takeWhile_append_of_pos hFree, takeWhile_cons_of_neg (by simp), append_nil]
  · rw [dropWhile_append_of_pos hFree, dropWhile_cons_of_neg (by simp)]

theorem components_name (hName : PlainName name) (rest : CString) :
    components (name ++ slash :: rest) = name :: components rest := by
  obtain ⟨hTake, hDrop⟩ := takeWhile_name hName.slash_free rest
  have hNonempty : (name ++ slash :: rest).takeWhile (· != slash) ≠ [] := by
    rw [hTake]
    exact hName.nonempty
  rw [components_takeWhile hNonempty, hTake, hDrop, components_slash]

theorem components_joined {names : List CString} (h : ∀ name ∈ names, PlainName name)
    (rest : CString) : components (joined names ++ rest) = names ++ components rest := by
  induction names with
  | nil => rfl
  | cons name names ih =>
    obtain ⟨hName, hNames⟩ := forall_mem_cons.mp h
    have hJoined : joined (name :: names) ++ rest = name ++ slash :: (joined names ++ rest) := by
      simp [joined]
    rw [hJoined, components_name hName, ih hNames, cons_append]

theorem components_last (h : PlainName name) : components name = [name] := by
  have hFree := bne_slash h.slash_free
  have hTake : name.takeWhile (· != slash) = name := takeWhile_eq_self_iff.mpr hFree
  have hNonempty : name.takeWhile (· != slash) ≠ [] := by
    rw [hTake]
    exact h.nonempty
  have hDrop : name.dropWhile (· != slash) = [] := dropWhile_eq_nil_iff.mpr hFree
  rw [components_takeWhile hNonempty, hTake, hDrop]
  rfl

end Components

namespace Vfs

variable {vfs : Vfs}
variable {id : Nat} {names : List CString} {name : CString}

/-- The names that lead from the root to a node. -/
inductive At (vfs : Vfs) : Nat → List CString → Prop
  | top : At vfs root []
  | step {parent child : Nat} {names : List CString} {node : FsNode} {name : CString}
      (hParent : At vfs parent names) (hNode : vfs.nodes.get child = some node)
      (hUp : node.parent = some parent) (hName : node.name = some name) (hPlain : PlainName name)
      (hType : node.type ≠ .root) (hFind : vfs.findChild parent name = some child) :
      At vfs child (names ++ [name])

theorem walk_single (node : Nat) (h : PlainName name) : vfs.walk node [name] =
      match vfs.findChild node name with
      | none => ⟨node, none, name⟩
      | some child => ⟨child, some child, []⟩ := by
  rw [walk, step_eq_findChild h.not_up h.not_dot]
  rfl

/-- A node of the tree and its names from the root on. They are plain, and its parent finds
the node under its name, as it does when no sibling has the same one. -/
inductive Named (vfs : Vfs) : Nat → List CString → Prop
  | top : Named vfs root []
  | step {parent child : Nat} {names : List CString} {node : FsNode} {name : CString}
      (hParent : Named vfs parent names) (hNode : vfs.nodes.get child = some node)
      (hUp : node.parent = some parent) (hName : node.name = some name) (hPlain : PlainName name)
      (hFind : vfs.findChild parent name = some child) : Named vfs child (names ++ [name])

theorem Named.plain (h : Named vfs id names) : ∀ name ∈ names, PlainName name := by
  induction h with
  | top => simp
  | step hParent hNode hUp hName hPlain hFind ih => simpa [or_imp, forall_and] using ⟨ih, hPlain⟩

theorem Named.walk_eq (h : Named vfs id names) : vfs.walk root names = ⟨id, some id, []⟩ := by
  induction h with
  | top => rfl
  | step hParent hNode hUp hName hPlain hFind ih =>
    rw [walk_append _ (by rw [ih]), walk_single _ hPlain, hFind]

theorem At.named (h : At vfs id names) : Named vfs id names := by
  induction h with
  | top => exact .top
  | step hParent hNode hUp hName hPlain hType hFind ih =>
    exact .step ih hNode hUp hName hPlain hFind

theorem At.insert (h : At vfs id names) (hValid : vfs.Valid)
    {parent : Nat} (hParent : (vfs.nodes.get parent).isSome)
    (hMissing : vfs.findChild parent name = none) (delegate : Option FsDelegate) (type : FsNodeType)
    (physFsID : Nat) : At (vfs.insert parent delegate type physFsID (some name)).2 id names := by
  induction h with
  | top => exact .top
  | @step up child names node own hUp hNode hLink hOwn hPlain hType hFind ih =>
    refine .step ih (get_insert_old hValid hParent hNode) ?_ ?_ hPlain ?_
      (findChild_insert_old hValid hParent hMissing hFind)
    · rw [parent_linked, hLink]
    · rw [name_linked, hOwn]
    · rwa [type_linked]

/-- The names between a node and an ancestor of it, where no node on the way has the
type of the root. -/
inductive Under (vfs : Vfs) (top : Nat) : Nat → List CString → Prop
  | top : Under vfs top top []
  | step {parent child : Nat} {names : List CString} {node : FsNode} {name : CString}
      (hParent : Under vfs top parent names) (hNode : vfs.nodes.get child = some node)
      (hUp : node.parent = some parent) (hName : node.name = some name) (hType : node.type ≠ .root) :
      Under vfs top child (names ++ [name])

theorem At.under (h : At vfs id names) : Under vfs root id names := by
  induction h with
  | top => exact .top
  | step hParent hNode hUp hName hPlain hType hFind ih => exact .step ih hNode hUp hName hType

/-- Going up as often as a walk went down leads back. -/
theorem Valid.up_walk (h : vfs.Valid) (hPlain : ∀ name ∈ names, PlainName name)
    {node child : Nat} (hWalk : (vfs.walk node names).child = some child) :
    vfs.up^[names.length] child = node := by
  induction names generalizing node with
  | nil => exact (Option.some.inj hWalk).symm
  | cons name rest ih =>
    obtain ⟨hName, hRest⟩ := forall_mem_cons.mp hPlain
    rw [walk, step_eq_findChild hName.not_up hName.not_dot] at hWalk
    cases hFind : vfs.findChild node name with
    | none =>
      rw [hFind] at hWalk
      cases hWalk
    | some next =>
      rw [hFind] at hWalk
      rw [length_cons, iterate_succ_apply', ih hRest hWalk]
      cases hNode : vfs.nodes.get node with
      | none => simp [findChild, hNode] at hFind
      | some folder =>
        rw [findChild, hNode] at hFind
        obtain ⟨content, hContent, hUp⟩ :=
          h.child node folder hNode next (mem_of_find?_eq_some hFind)
        simp [up, parentOf, hContent, hUp]

/-- From every node the loop over the parents comes to one with the type of the root. If
this is the root, all names have been passed. -/
theorem Named.exists_under (hValid : vfs.Valid) {top : FsNode} (hTop : vfs.nodes.get root = some top)
    (hType : top.type = .root) (h : Named vfs id names) :
    ∃ stop content passed, vfs.nodes.get stop = some content ∧ content.type = .root ∧
      Under vfs stop id passed ∧ passed <:+ names ∧ vfs.up^[passed.length] id = stop ∧
      (stop = root → passed = names) ∧
      ∀ k < passed.length, ∀ node, vfs.nodes.get (vfs.up^[k] id) = some node → node.type ≠ .root := by
  induction h with
  | top => exact ⟨root, top, [], hTop, hType, .top, suffix_rfl, rfl, fun _ => rfl, by simp⟩
  | @step parent child names node name hParent hNode hUp hName hPlain hFind ih =>
    by_cases hStop : node.type = .root
    · refine ⟨child, node, [], hNode, hStop, .top, nil_suffix, rfl, fun hRoot => ?_, by simp⟩
      exact absurd (hRoot ▸ (hValid.parent _ _ hNode _ hUp).1) (Nat.not_lt_zero _)
    · obtain ⟨stop, content, passed, hGet, hRoot, hUnder, hSuffix, hEnd, hAll, hTypes⟩ := ih
      have hStep : vfs.up child = parent := by simp [up, parentOf, hNode, hUp]
      refine ⟨stop, content, passed ++ [name], hGet, hRoot, .step hUnder hNode hUp hName hStop,
        suffix_append_self_iff.mpr hSuffix, ?_, fun h => by rw [hAll h], fun k hk other => ?_⟩
      · rw [length_append, length_singleton, iterate_succ_apply, hStep, hEnd]
      · cases k with
        | zero =>
          intro hOther
          obtain rfl : node = other := Option.some.inj (hNode.symm.trans hOther)
          exact hStop
        | succ k =>
          rw [iterate_succ_apply, hStep]
          exact hTypes k (by simpa using hk) other

end Vfs

namespace FileSystem

/-- The loop of `getRealPathToNode`, which puts the name of the current node in
front of what it has. -/
def realPathFrom (vfs : Vfs) : (fuel : Nat) → (current : Option Nat) → (out : CString) →
    Outcome CString
  | 0, _, _ => .error .outOfFuel
  | _ + 1, none, out => .ok out
  | fuel + 1, some current, out =>
    match vfs.nodes.get current with
    | none => .error .nullPointer
    | some node =>
      if node.type = .root then .ok out
      else
        match node.name with
        | none => .ok out
        | some name =>
          if pathMax < out.length + name.length + 1 then .ok out
          -- The byte behind the path is moved as well.
          else if out.length + name.length + 1 = pathMax then .error .bufferOverflow
          else realPathFrom vfs fuel node.parent (name ++ slash :: out)

/-- `FileSystem::getRealPathToNode`. A parent has a smaller identifier. -/
def getRealPathToNode (vfs : Vfs) (node : Nat) : Outcome CString := do
  let out ← realPathFrom vfs (node + 2) (some node) []
  if pathMax ≤ out.length + 1 then .error .bufferOverflow else .ok (slash :: out)

variable {vfs : Vfs} {id stop : Nat} {names : List CString} {top : FsNode}

section

variable (hValid : vfs.Valid) (hTop : vfs.nodes.get stop = some top) (hType : top.type = .root)
  (h : vfs.Under stop id names)

include hValid hTop hType h

theorem realPathFrom_under {fuel : Nat} (hFuel : id + 1 < fuel) {out : CString}
    (hFits : (joined names ++ out).length < pathMax) :
    realPathFrom vfs fuel (some id) out = .ok (joined names ++ out) := by
  induction h generalizing fuel out with
  | top =>
    obtain ⟨fuel, rfl⟩ : ∃ n, fuel = n + 1 := ⟨fuel - 1, by omega⟩
    rw [realPathFrom, hTop]
    dsimp only
    rw [if_pos hType]
    rfl
  | @step parent child names node name hParent hNode hUp hName hNotRoot ih =>
    obtain ⟨fuel, rfl⟩ : ∃ n, fuel = n + 1 := ⟨fuel - 1, by omega⟩
    have hLess := (hValid.parent _ _ hNode _ hUp).1
    have hJoined : joined (names ++ [name]) ++ out = joined names ++ (name ++ slash :: out) := by
      rw [joined_append, joined_singleton]
      simp
    rw [hJoined] at hFits ⊢
    have hLength := hFits
    simp only [length_append, length_cons] at hLength
    rw [realPathFrom, hNode]
    dsimp only
    rw [if_neg hNotRoot, hName]
    dsimp only
    rw [if_neg (by omega), if_neg (by omega), hUp]
    exact ih (by omega) hFits

/-- The path of a node is made of the names that lead to it. -/
theorem getRealPathToNode_under (hFits : (joined names).length + 1 < pathMax) :
    getRealPathToNode vfs id = .ok (slash :: joined names) := by
  have hLoop : realPathFrom vfs (id + 2) (some id) [] = .ok (joined names ++ []) := by
    refine realPathFrom_under hValid hTop hType h (Nat.lt_succ_self (id + 1)) ?_
    rw [append_nil]
    omega
  rw [append_nil] at hLoop
  rw [getRealPathToNode, hLoop]
  change (if pathMax ≤ (joined names).length + 1 then _ else _) = _
  rw [if_neg (by omega)]

end

/-- The path of a child of a node, looked up, leads to what the node has under
the name of the child. -/
theorem findExisting_child (h : vfs.At id names) {name : CString} (hName : PlainName name) :
    vfs.findExisting (slash :: joined names ++ slash :: name) =
      some (match vfs.findChild id name with
        | none => ⟨id, none, name⟩
        | some child => ⟨child, some child, []⟩) := by
  rw [Vfs.findExisting_eq_walk, cons_append, components_slash, components_joined h.named.plain,
    components_slash, components_last hName, Vfs.walk_append _ (by rw [h.named.walk_eq]), Vfs.walk_single _ hName]

/-- The path of a named node that fits into `PATH_MAX` bytes leads back to the node exactly
when neither the node nor an ancestor, the root apart, has the type of the root. -/
theorem findExisting_realPath_iff {vfs : Vfs} (hValid : vfs.Valid) {top : FsNode}
    (hTop : vfs.nodes.get root = some top) (hType : top.type = .root) {id : Nat}
    {names : List CString} (h : vfs.Named id names)
    (hFits : (slash :: joined names).length + 1 ≤ pathMax) :
    (∃ path, getRealPathToNode vfs id = .ok path ∧
        vfs.findExisting path = some ⟨id, some id, []⟩) ↔
      ∀ k node, vfs.nodes.get (vfs.up^[k] id) = some node → node.type = .root →
        vfs.up^[k] id = root := by
  obtain ⟨stop, content, passed, hGet, hRoot, hUnder, hSuffix, hEnd, hAll, hTypes⟩ :=
    h.exists_under hValid hTop hType
  obtain ⟨front, rfl⟩ := hSuffix
  simp only [joined_append, length_cons, length_append] at hFits
  have hPath := getRealPathToNode_under hValid hGet hRoot hUnder (by omega)
  have hPlain : ∀ name ∈ passed, PlainName name :=
    fun name hName => h.plain name (mem_append_right _ hName)
  have hComponents := components_joined hPlain []
  rw [append_nil, show components [] = [] from rfl, append_nil] at hComponents
  have hFind := vfs.findExisting_eq_walk (slash :: joined passed)
  rw [components_slash, hComponents] at hFind
  constructor
  · rintro ⟨path, hOk, hExisting⟩ k node hNode hNodeType
    obtain rfl := Except.ok.inj (hPath.symm.trans hOk)
    have hWalk := Option.some.inj (hFind.symm.trans hExisting)
    have hStop := hValid.up_walk hPlain (by rw [hWalk])
    by_cases hk : k < passed.length
    · exact absurd hNodeType (hTypes k hk node hNode)
    · obtain ⟨more, rfl⟩ := Nat.exists_eq_add_of_le' (not_lt.mp hk)
      rw [iterate_add_apply, hStop]
      obtain hParent : top.parent = none := Option.eq_none_iff_forall_ne_some.mpr fun p hp =>
        Nat.not_lt_zero p (hValid.parent _ _ hTop p hp).1
      exact iterate_fixed (by simp [Vfs.up, Vfs.parentOf, hTop, hParent]) more
  · intro hOnly
    have hStop : stop = root := by
      rw [← hEnd] at hGet ⊢
      exact hOnly _ _ hGet hRoot
    refine ⟨_, hPath, ?_⟩
    rw [hFind, hAll hStop, h.walk_eq]

/-- The path of the node where the delegates are mounted. -/
theorem findExisting_realPath_iff_mount :
    ∃ path, getRealPathToNode Vfs.initial mountRoot = .ok path ∧
      Vfs.initial.findExisting path = some ⟨mountRoot, some mountRoot, []⟩ := by
  have hNamed : Vfs.initial.Named mountRoot ([] ++ [Vfs.mountName]) :=
    .step .top rfl rfl rfl ⟨by decide, by decide, by decide, by decide⟩ rfl
  refine (findExisting_realPath_iff Vfs.initial_valid rfl rfl hNamed (by decide)).mpr ?_
  intro k node hNode hType
  cases k with
  | zero =>
    cases hNode
    cases hType
  | succ k => exact iterate_fixed (show Vfs.initial.up root = root from rfl) k

/-- A node `a` below the root that `fsCreateNode` has given the type of the root: its path is
that of the root. -/
theorem realPath_of_second_root :
    ∃ fs : FileSystem, fs = fsCreateNode (initial ⟨Ramdisk.rootEntry, [], 0⟩) root [97] .root 0 ∧
      fs.vfs.Named 4 ([] ++ [[97]]) ∧ getRealPathToNode fs.vfs 4 = .ok [slash] ∧
      fs.vfs.findExisting [slash] = some ⟨root, some root, []⟩ :=
  ⟨_, rfl, .step .top rfl rfl rfl ⟨by decide, by decide, by decide, by decide⟩ rfl, rfl, rfl⟩

end FileSystem

end Kernel
