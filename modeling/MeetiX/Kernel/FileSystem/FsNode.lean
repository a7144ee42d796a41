import MeetiX.Kernel.Utils.HashMap

/-! The tree of virtual file-system nodes. A pointer to a node is its identifier: all nodes come
from `createNode`, are in the node map and are never deleted. A name has no terminating zero. -/
namespace Kernel

open Option

/-- The bytes of a C string, without the terminator. -/
abbrev CString := List UInt8

/-- `FsNodeType`. The system call that creates nodes stores any number. -/
inductive FsNodeType
  | none
  | root
  | mountpoint
  | folder
  | file
  | pipe
  | other (code : Int)
  deriving DecidableEq, Repr

/-- The kinds of `FsDelegate`. A tasked delegate is named by its thread. -/
inductive FsDelegate
  | mount
  | ramdisk
  | pipe
  | tasked (thread : Tid)
  deriving DecidableEq, Repr

/-- `FsNode`. A null name is `none`. -/
structure FsNode where
  delegate : Option FsDelegate
  type : FsNodeType
  id : Nat
  physFsID : Nat
  name : Option CString
  parent : Option Nat
  children : List Nat

def FsNode.new : FsNode where
  delegate := none
  type := .none
  id := 0
  physFsID := 0
  name := none
  parent := none
  children := []

/-- The node map and the counter of `FileSystem`. A 32-bit counter cannot run
around, since the nodes would not fit into memory. -/
structure Vfs where
  nodeNextID : Nat
  nodes : HashMap Nat FsNode

namespace Vfs

/-- The identifiers that `FileSystem::initialize` gives to its nodes. -/
def root : Nat := 0

@[inherit_doc root] def mountRoot : Nat := 1

@[inherit_doc root] def ramdiskRoot : Nat := 2

@[inherit_doc root] def pipeRoot : Nat := 3

variable (vfs : Vfs)

def getNodeById (id : Nat) : Option FsNode := vfs.nodes.get id

def modify (id : Nat) (change : FsNode → FsNode) : Vfs :=
  match vfs.nodes.get id with
  | none => vfs
  | some node => { vfs with nodes := vfs.nodes.assign id (change node) }

def createNode : Nat × Vfs :=
  (vfs.nodeNextID,
    { nodeNextID := vfs.nodeNextID + 1
      nodes := vfs.nodes.add vfs.nodeNextID { FsNode.new with id := vfs.nodeNextID } })

def addChild (parent child : Nat) : Vfs :=
  (vfs.modify child fun node => { node with parent := some parent }).modify parent
    fun node => { node with children := child :: node.children }

def hasName (name : CString) (id : Nat) : Bool :=
  (vfs.nodes.get id).any fun node => node.name = some name

def findChild (id : Nat) (name : CString) : Option Nat :=
  match vfs.nodes.get id with
  | none => none
  | some node => node.children.find? (vfs.hasName name)

def parentOf (id : Nat) : Option Nat := (vfs.nodes.get id).bind FsNode.parent

/-- The walk of `FsNode::getDelegate` over the parents. -/
def getDelegateFrom (vfs : Vfs) : Nat → Nat → Option FsDelegate
  | 0, _ => none
  | fuel + 1, id =>
    match vfs.nodes.get id with
    | none => none
    | some node =>
      match node.delegate, node.parent with
      | some delegate, _ => some delegate
      | none, some parent => vfs.getDelegateFrom fuel parent
      | none, none => none

/-- `FsNode::getDelegate`. A parent is older than its children, so its
identifier is smaller. -/
def getDelegate (id : Nat) : Option FsDelegate := vfs.getDelegateFrom (id + 1) id

/-- A new node with all the fields its creator sets, added to its parent. -/
def insert (parent : Nat) (delegate : Option FsDelegate) (type : FsNodeType)
    (physFsID : Nat) (name : Option CString) : Nat × Vfs :=
  let (id, vfs) := vfs.createNode
  let vfs := vfs.modify id fun node =>
    { node with delegate := delegate, type := type, physFsID := physFsID, name := name }
  (id, vfs.addChild parent id)

/-- The texts `mount`, `ramdisk` and `pipe`. -/
def mountName : CString := [109, 111, 117, 110, 116]

@[inherit_doc mountName] def ramdiskName : CString := [114, 97, 109, 100, 105, 115, 107]

@[inherit_doc mountName] def pipeName : CString := [112, 105, 112, 101]

def rootOnly : Vfs :=
  (createNode ⟨0, HashMap.empty⟩).2.modify root fun node => { node with type := .root }

/-- The nodes that `FileSystem::initialize` creates. -/
def initial : Vfs :=
  let vfs := (rootOnly.insert root (some .mount) .mountpoint 0 (some mountName)).2
  let vfs := (vfs.insert mountRoot (some .ramdisk) .mountpoint 0 (some ramdiskName)).2
  let vfs := (vfs.insert mountRoot (some .pipe) .mountpoint 0 (some pipeName)).2
  vfs.modify root fun node => { node with delegate := some .ramdisk }

structure Valid : Prop where
  id_eq : ∀ i node, vfs.nodes.get i = some node → node.id = i
  lt_next : ∀ i node, vfs.nodes.get i = some node → i < vfs.nodeNextID
  child : ∀ i node, vfs.nodes.get i = some node → ∀ c ∈ node.children,
    ∃ child, vfs.nodes.get c = some child ∧ child.parent = some i
  parent : ∀ i node, vfs.nodes.get i = some node → ∀ p, node.parent = some p →
    p < i ∧ (vfs.nodes.get p).isSome

section Lookup

variable {vfs : Vfs} {id i : Nat} {change : FsNode → FsNode}

theorem get_modify (id other : Nat) (change : FsNode → FsNode) :
    (vfs.modify id change).nodes.get other =
      if id = other then (vfs.nodes.get other).map change else vfs.nodes.get other := by
  rw [modify]
  split
  · rename_i hNone
    split
    · rename_i h
      rw [← h, hNone]
      rfl
    · rfl
  · rename_i node hNode
    rw [HashMap.get_assign]
    split
    · rename_i h
      rw [← h, hNode]
      rfl
    · rfl

@[simp] theorem nodeNextID_modify (id : Nat) (change : FsNode → FsNode) :
    (vfs.modify id change).nodeNextID = vfs.nodeNextID := by
  rw [modify]
  split <;> rfl

theorem Valid.get_nodeNextID (h : vfs.Valid) : vfs.nodes.get vfs.nodeNextID = none := by
  cases hGet : vfs.nodes.get vfs.nodeNextID with
  | none => rfl
  | some node => exact absurd (h.lt_next _ _ hGet) (Nat.lt_irrefl _)

/-- A change that keeps the links of a node and its identifier keeps the
tree. -/
theorem Valid.modify (h : vfs.Valid)
    (hChange : ∀ node, (change node).id = node.id ∧ (change node).parent = node.parent ∧
      (change node).children = node.children) : (vfs.modify id change).Valid := by
  have hGet : ∀ i node, (vfs.modify id change).nodes.get i = some node →
      ∃ old, vfs.nodes.get i = some old ∧ node.id = old.id ∧ node.parent = old.parent ∧
        node.children = old.children := by
    intro i node hNode
    rw [get_modify] at hNode
    split at hNode
    · obtain ⟨old, hOld, rfl⟩ := map_eq_some_iff.mp hNode
      exact ⟨old, hOld, hChange old⟩
    · exact ⟨node, hNode, rfl, rfl, rfl⟩
  constructor
  · intro i node hNode
    obtain ⟨old, hOld, hId, -, -⟩ := hGet i node hNode
    rw [hId, h.id_eq i old hOld]
  · intro i node hNode
    obtain ⟨old, hOld, -, -, -⟩ := hGet i node hNode
    rw [nodeNextID_modify]
    exact h.lt_next i old hOld
  · intro i node hNode c hc
    obtain ⟨old, hOld, -, -, hChildren⟩ := hGet i node hNode
    obtain ⟨child, hChild, hParent⟩ := h.child i old hOld c (hChildren ▸ hc)
    rw [get_modify]
    split
    · exact ⟨change child, by rw [hChild]; rfl, by rw [(hChange child).2.1, hParent]⟩
    · exact ⟨child, hChild, hParent⟩
  · intro i node hNode p hp
    obtain ⟨old, hOld, -, hParent, -⟩ := hGet i node hNode
    obtain ⟨hLt, hSome⟩ := h.parent i old hOld p (hParent ▸ hp)
    rw [get_modify]
    refine ⟨hLt, ?_⟩
    split
    · rw [isSome_map]
      exact hSome
    · exact hSome

variable {parent : Nat} {delegate : Option FsDelegate} {type : FsNodeType} {physFsID : Nat}
  {name : Option CString}

@[simp] theorem nodeNextID_insert :
    (vfs.insert parent delegate type physFsID name).2.nodeNextID = vfs.nodeNextID + 1 := by
  simp [insert, addChild, createNode]

theorem get_insert (h : vfs.Valid) (hParent : (vfs.nodes.get parent).isSome) (other : Nat) :
    (vfs.insert parent delegate type physFsID name).2.nodes.get other =
      if other = vfs.nodeNextID then
        some ⟨delegate, type, vfs.nodeNextID, physFsID, name, some parent, []⟩
      else if other = parent then
        (vfs.nodes.get other).map fun node =>
          { node with children := vfs.nodeNextID :: node.children }
      else vfs.nodes.get other := by
  have hNe : parent ≠ vfs.nodeNextID := by
    intro hEq
    rw [hEq, h.get_nodeNextID] at hParent
    cases hParent
  simp only [insert, addChild, createNode, get_modify, HashMap.get_add]
  by_cases hNew : other = vfs.nodeNextID
  · subst hNew
    simp [hNe, FsNode.new]
  · by_cases hOther : other = parent
    · subst hOther
      simp [Ne.symm hNew, hNew]
    · simp [Ne.symm hNew, hNew, Ne.symm hOther, hOther]

/-- What an insertion below `parent` leaves of a node: the parent has a child more. -/
def linked (vfs : Vfs) (parent id : Nat) (node : FsNode) : FsNode :=
  if id = parent then { node with children := vfs.nodeNextID :: node.children } else node

section Linked

variable {id : Nat} {node : FsNode}

theorem linked_eq : vfs.linked parent id node =
    { node with children := (vfs.linked parent id node).children } := by
  unfold linked
  split <;> rfl

@[simp] theorem delegate_linked : (vfs.linked parent id node).delegate = node.delegate := by
  rw [linked_eq]

@[simp] theorem type_linked : (vfs.linked parent id node).type = node.type := by rw [linked_eq]

@[simp] theorem id_linked : (vfs.linked parent id node).id = node.id := by rw [linked_eq]

@[simp] theorem physFsID_linked : (vfs.linked parent id node).physFsID = node.physFsID := by
  rw [linked_eq]

@[simp] theorem name_linked : (vfs.linked parent id node).name = node.name := by rw [linked_eq]

@[simp] theorem parent_linked : (vfs.linked parent id node).parent = node.parent := by rw [linked_eq]

theorem mem_children_linked {c : Nat} : c ∈ (vfs.linked parent id node).children ↔
    id = parent ∧ c = vfs.nodeNextID ∨ c ∈ node.children := by
  unfold linked
  split <;> simp [*]

variable (h : vfs.Valid) (hParent : (vfs.nodes.get parent).isSome)

include h hParent

theorem get_insert_new :
    (vfs.insert parent delegate type physFsID name).2.nodes.get vfs.nodeNextID =
      some ⟨delegate, type, vfs.nodeNextID, physFsID, name, some parent, []⟩ := by
  rw [get_insert h hParent, if_pos rfl]

theorem get_insert_old (hNode : vfs.nodes.get id = some node) :
    (vfs.insert parent delegate type physFsID name).2.nodes.get id =
      some (vfs.linked parent id node) := by
  rw [get_insert h hParent, if_neg (Nat.ne_of_lt (h.lt_next _ _ hNode)), hNode, linked]
  split <;> rfl

theorem get_insert_cases
    (hGet : (vfs.insert parent delegate type physFsID name).2.nodes.get id = some node) :
    id = vfs.nodeNextID ∧
        node = ⟨delegate, type, vfs.nodeNextID, physFsID, name, some parent, []⟩ ∨
      ∃ old, vfs.nodes.get id = some old ∧ node = vfs.linked parent id old := by
  cases hOld : vfs.nodes.get id with
  | some old =>
    rw [get_insert_old h hParent hOld] at hGet
    exact .inr ⟨old, rfl, (some.inj hGet).symm⟩
  | none =>
    rw [get_insert h hParent, hOld] at hGet
    split at hGet
    · next hNew => exact .inl ⟨hNew, (some.inj hGet).symm⟩
    · split at hGet <;> cases hGet

end Linked

theorem isSome_get_insert (h : vfs.Valid) (hParent : (vfs.nodes.get parent).isSome)
    (hi : (vfs.nodes.get i).isSome) :
    ((vfs.insert parent delegate type physFsID name).2.nodes.get i).isSome := by
  obtain ⟨node, hNode⟩ := isSome_iff_exists.mp hi
  rw [get_insert_old h hParent hNode]
  rfl

theorem Valid.insert (h : vfs.Valid) (hParent : (vfs.nodes.get parent).isSome) :
    (vfs.insert parent delegate type physFsID name).2.Valid := by
  obtain ⟨top, hTop⟩ := isSome_iff_exists.mp hParent
  have hTopLt := h.lt_next parent top hTop
  constructor
  · intro i node hNode
    obtain ⟨rfl, rfl⟩ | ⟨old, hOld, rfl⟩ := get_insert_cases h hParent hNode
    · rfl
    · rw [id_linked, h.id_eq i old hOld]
  · intro i node hNode
    rw [nodeNextID_insert]
    obtain ⟨rfl, rfl⟩ | ⟨old, hOld, rfl⟩ := get_insert_cases h hParent hNode
    · exact Nat.lt_succ_self _
    · exact Nat.lt_succ_of_lt (h.lt_next i old hOld)
  · intro i node hNode c hc
    obtain ⟨rfl, rfl⟩ | ⟨old, hOld, rfl⟩ := get_insert_cases h hParent hNode
    · cases hc
    · rcases mem_children_linked.mp hc with ⟨rfl, rfl⟩ | hc
      · exact ⟨_, get_insert_new h hParent, rfl⟩
      · obtain ⟨child, hChild, hUp⟩ := h.child i old hOld c hc
        exact ⟨_, get_insert_old h hParent hChild, by rw [parent_linked, hUp]⟩
  · intro i node hNode p hp
    obtain ⟨rfl, rfl⟩ | ⟨old, hOld, rfl⟩ := get_insert_cases h hParent hNode
    · cases hp
      exact ⟨hTopLt, isSome_get_insert h hParent hParent⟩
    · rw [parent_linked] at hp
      obtain ⟨hLt, hSome⟩ := h.parent i old hOld p hp
      exact ⟨hLt, isSome_get_insert h hParent hSome⟩

theorem isSome_get_modify
    (hi : (vfs.nodes.get i).isSome) : ((vfs.modify id change).nodes.get i).isSome := by
  rw [get_modify]
  split
  · rw [isSome_map]
    exact hi
  · exact hi

end Lookup

theorem valid_createNode_empty : (createNode ⟨0, HashMap.empty⟩).2.Valid := by
  have hGet : ∀ i node, (createNode ⟨0, HashMap.empty⟩).2.nodes.get i = some node →
      i = 0 ∧ node = FsNode.new := by
    intro i node hNode
    rw [createNode, HashMap.get_add] at hNode
    split at hNode
    · rename_i h
      exact ⟨h.symm, (some.inj hNode).symm⟩
    · cases hNode
  constructor
  · intro i node hNode
    obtain ⟨rfl, rfl⟩ := hGet i node hNode
    rfl
  · intro i node hNode
    obtain ⟨rfl, -⟩ := hGet i node hNode
    exact Nat.one_pos
  · intro i node hNode c hc
    obtain ⟨-, rfl⟩ := hGet i node hNode
    cases hc
  · intro i node hNode p hp
    obtain ⟨-, rfl⟩ := hGet i node hNode
    cases hp

theorem initial_valid : initial.Valid := by
  have hRoot : rootOnly.Valid := valid_createNode_empty.modify fun _ => ⟨rfl, rfl, rfl⟩
  have hAt : (rootOnly.nodes.get root).isSome := rfl
  unfold initial
  apply Valid.modify
  · apply Valid.insert
    · exact (hRoot.insert hAt).insert rfl
    · exact isSome_get_insert (hRoot.insert hAt) rfl rfl
  · exact fun _ => ⟨rfl, rfl, rfl⟩

end Vfs

/-- The characters `/` and `.`. -/
def slash : UInt8 := 47
def dot : UInt8 := 46

namespace Vfs

/-- How a lookup of a path ends: with the node of the last component, or at
the node that lacks the component named last. -/
structure Existing where
  parent : Nat
  child : Option Nat
  nameCurrent : CString
  deriving DecidableEq, Repr

/-- The loop of `FileSystem::findExisting` from the node `child` on, with
`abspos` still to read. -/
def findExistingFrom (vfs : Vfs) : Nat → Nat → CString → Option Existing
  | 0, _, _ => none
  | fuel + 1, child, abspos =>
    let abspos := abspos.dropWhile (· == slash)
    let nameCurrent := abspos.takeWhile (· != slash)
    let abspos := abspos.dropWhile (· != slash)
    if nameCurrent = [] then some ⟨child, some child, nameCurrent⟩
    else if nameCurrent = [dot, dot] then
      vfs.findExistingFrom fuel ((vfs.parentOf child).getD child) abspos
    else if nameCurrent = [dot] then vfs.findExistingFrom fuel child abspos
    else
      match vfs.findChild child nameCurrent with
      | none => some ⟨child, none, nameCurrent⟩
      | some next => vfs.findExistingFrom fuel next abspos

/-- `FileSystem::findExisting`. Every round but the last reads a character. -/
def findExisting (vfs : Vfs) (absolutePath : CString) : Option Existing :=
  vfs.findExistingFrom (absolutePath.length + 1) root absolutePath

end Vfs

end Kernel
