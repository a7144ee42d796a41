import MeetiX.Base.Action
import MeetiX.Kernel.FileSystem.CreateFile
import MeetiX.Kernel.FileSystem.RealPath

/-! The refresh of a directory on the ramdisk: the delegate looks up each child of the folder by
its absolute path and makes a node where there is none. In a tree that was discovered from the
ramdisk this leaves one node for every child and nothing else. -/
namespace Kernel

open Base Function Ramdisk List Option
open Vfs (get_insert_old mountName)

namespace Vfs

def NamesDistinct (vfs : Vfs) : Prop :=
  ∀ id node, vfs.nodes.get id = some node →
    node.children.Pairwise fun a b => ∀ name, vfs.hasName name a → ¬ vfs.hasName name b

variable {vfs : Vfs} {name : CString} {parent child : Nat} {node : FsNode}

theorem not_hasName_of_findChild (hNode : vfs.nodes.get parent = some node)
    (hMissing : vfs.findChild parent name = none) (hChild : child ∈ node.children) :
    ¬ vfs.hasName name child := by
  rw [findChild, hNode] at hMissing
  exact find?_eq_none.mp hMissing child hChild

theorem NamesDistinct.insert (h : vfs.NamesDistinct) (hValid : vfs.Valid)
    (hParent : (vfs.nodes.get parent).isSome)
    (hMissing : vfs.findChild parent name = none) (delegate : Option FsDelegate) (type : FsNodeType)
    (physFsID : Nat) : (vfs.insert parent delegate type physFsID (some name)).2.NamesDistinct := by
  have hSame : ∀ id node, vfs.nodes.get id = some node → ∀ c ∈ node.children, ∀ other,
      (vfs.insert parent delegate type physFsID (some name)).2.hasName other c =
        vfs.hasName other c := by
    intro id node hNode c hc other
    obtain ⟨child, hChild, -⟩ := hValid.child id node hNode c hc
    exact hasName_insert hValid hParent other (Nat.ne_of_lt (hValid.lt_next c child hChild))
  have hOld : ∀ id node, vfs.nodes.get id = some node → node.children.Pairwise fun a b =>
      ∀ other, (vfs.insert parent delegate type physFsID (some name)).2.hasName other a →
        ¬ (vfs.insert parent delegate type physFsID (some name)).2.hasName other b := by
    intro id node hNode
    refine (h id node hNode).imp_of_mem fun {a b} ha hb hApart other hHas => ?_
    rw [hSame id node hNode a ha] at hHas
    rw [hSame id node hNode b hb]
    exact hApart other hHas
  intro id new hNew
  obtain ⟨rfl, rfl⟩ | ⟨node, hNode, rfl⟩ := get_insert_cases hValid hParent hNew
  · exact List.Pairwise.nil
  · rw [linked]
    split
    · next hEq =>
        subst hEq
        refine pairwise_cons.mpr ⟨fun c hc other hHas => ?_, hOld id node hNode⟩
        -- The new child has its own name and no other.
        rw [hasName, get_insert_new hValid hParent] at hHas
        obtain rfl : name = other := by simpa using hHas
        rw [hSame id node hNode c hc]
        exact not_hasName_of_findChild hNode hMissing hc
    · exact hOld id node hNode

theorem NamesDistinct.filter_eq (h : vfs.NamesDistinct) {id : Nat}
    (hNode : vfs.nodes.get id = some node) (hFind : vfs.findChild id name = some child) :
    node.children.filter (vfs.hasName name) = [child] := by
  rw [findChild, hNode] at hFind
  dsimp only at hFind
  have hDistinct := h id node hNode
  generalize node.children = children at hFind hDistinct
  induction children with
  | nil => cases hFind
  | cons first rest ih =>
    obtain ⟨hFirst, hRest⟩ := pairwise_cons.mp hDistinct
    by_cases hHas : vfs.hasName name first
    · rw [find?_cons_of_pos hHas] at hFind
      cases hFind
      rw [filter_cons_of_pos hHas]
      have hNone : rest.filter (vfs.hasName name) = [] :=
        filter_eq_nil_iff.mpr fun other hOther => hFirst other hOther name hHas
      rw [hNone]
    · rw [find?_cons_of_neg hHas] at hFind
      rw [filter_cons_of_neg hHas]
      exact ih hFind hRest

end Vfs

/-- `Ramdisk::getChildAt`. The identifier has 32 bits. -/
def Ramdisk.getChildAt (ramdisk : Ramdisk) (id index : Nat) : Option RamdiskEntry :=
  (ramdisk.headers.filter fun current => current.parentid = wrap32 id)[index]?

namespace FileSystem

inductive FsDirectoryRefreshStatus
  | successful
  | error
  | busy
  deriving DecidableEq, Repr

/-- The absolute path of a child that the refresh puts together. -/
def childPath (vfs : Vfs) (folder : Nat) (name : CString) : Outcome CString := do
  let absolute ← getRealPathToNode vfs folder
  if pathMax ≤ absolute.length + 1 + name.length then .error .bufferOverflow
  else .ok (absolute ++ slash :: name)

/-- One round of the loop: a child without a node gets one. -/
def refreshChild (folder : Nat) (vfs : Vfs) (rdChild : RamdiskEntry) : Outcome Vfs := do
  let absolute ← childPath vfs folder rdChild.name
  match vfs.findExisting absolute with
  | none => .error .outOfFuel
  | some ⟨_, some _, _⟩ => .ok vfs
  | some ⟨_, none, _⟩ => .ok (createVfsNode vfs rdChild folder).2

/-- The loop over the children of the folder on the ramdisk. -/
def refreshFrom (ramdisk : Ramdisk) (folder physFsID : Nat) :
    (fuel : Nat) → (position : Nat) → Vfs → Outcome Vfs
  | 0, _, _ => .error .outOfFuel
  | fuel + 1, position, vfs =>
    match ramdisk.getChildAt physFsID position with
    | none => .ok vfs
    | some rdChild => do
        let vfs ← refreshChild folder vfs rdChild
        refreshFrom ramdisk folder physFsID fuel (position + 1) vfs

/-- The file system and the field `contentsValid` of its nodes. -/
structure Folders where
  fs : FileSystem
  contentsValid : Nat → Bool

def requestDirectoryRefresh (folders : Folders) (folder : Nat) :
    Outcome (Nat × FsDirectoryRefreshStatus × Folders) :=
  match folders.fs.vfs.getNodeById folder with
  | none => .error .nullPointer
  | some node =>
    let (id, transactions) := folders.fs.transactions.nextTransaction
    let transactions := transactions.setStatus id .finished
    match folders.fs.ramdisk.findById node.physFsID with
    | none => .ok (id, .error, { folders with fs := { folders.fs with transactions := transactions } })
    | some _ => do
        let vfs ← refreshFrom folders.fs.ramdisk folder node.physFsID
          (folders.fs.ramdisk.headers.length + 1) 0 folders.fs.vfs
        .ok (id, .successful,
          { fs := { folders.fs with vfs := vfs, transactions := transactions }
            contentsValid := update folders.contentsValid folder true })

section Loop

variable {ramdisk : Ramdisk} {folder physFsID : Nat}

def ramdiskChildren (ramdisk : Ramdisk) (id : Nat) : List RamdiskEntry :=
  ramdisk.headers.filter fun current => current.parentid = wrap32 id

theorem refreshFrom_eq {fuel position : Nat} {vfs : Vfs}
    (hFuel : (ramdiskChildren ramdisk physFsID).length < fuel + position) (hSome : 0 < fuel) :
    refreshFrom ramdisk folder physFsID fuel position vfs =
      ((ramdiskChildren ramdisk physFsID).drop position).foldlM (refreshChild folder) vfs := by
  induction fuel generalizing position vfs with
  | zero => exact absurd hSome (Nat.lt_irrefl 0)
  | succ fuel ih =>
    rw [refreshFrom, getChildAt]
    by_cases hEnd : position < (ramdiskChildren ramdisk physFsID).length
    · rw [drop_eq_getElem_cons hEnd]
      have hGet : (ramdisk.headers.filter fun current => current.parentid = wrap32 physFsID)[position]? =
          some (ramdiskChildren ramdisk physFsID)[position] := getElem?_eq_getElem hEnd
      rw [hGet]
      dsimp only
      congr 1
      funext next
      exact ih (by omega) (by omega)
    · have hGet : (ramdisk.headers.filter fun current => current.parentid = wrap32 physFsID)[position]? =
          none := getElem?_eq_none (not_lt.mp hEnd)
      rw [hGet, drop_eq_nil_of_le (not_lt.mp hEnd)]
      rfl

end Loop

section Tree

/-- The names on a ramdisk whose siblings can be told apart by their paths. -/
structure WellNamed (ramdisk : Ramdisk) : Prop extends RamdiskTree ramdisk where
  plain : ∀ entry ∈ ramdisk.headers, PlainName entry.name
  siblings : ramdisk.headers.Pairwise fun a b => a.parentid = b.parentid → a.name ≠ b.name
  mount : ∀ entry ∈ ramdisk.headers, entry.parentid = 0 → entry.name ≠ mountName

/-- The type that `createVfsNode` gives to the node of an entry. -/
def entryNodeType (entry : RamdiskEntry) : FsNodeType := if entry.type = .file then .file else .folder

/-- The nodes were discovered from the ramdisk: they mirror it, the names of a node
lead to it, and its type is that of its entry. -/
structure Discovered (ramdisk : Ramdisk) (vfs : Vfs) : Prop extends Mirrors ramdisk vfs where
  top : ∃ node, vfs.nodes.get Vfs.root = some node ∧ node.type = .root
  located : ∀ id node, vfs.nodes.get id = some node → ∃ names, vfs.At id names
  distinct : vfs.NamesDistinct
  typed : ∀ id node, vfs.nodes.get id = some node → vfs.getDelegate id = some .ramdisk →
    ∀ c child, vfs.nodes.get c = some child → child.parent = some id → c ≠ Vfs.mountRoot →
      ∀ name entry, child.name = some name → ramdisk.childOf node.physFsID name = some entry →
        child.type = entryNodeType entry

variable {ramdisk : Ramdisk} {vfs : Vfs}
variable {node : FsNode} {entry : RamdiskEntry} {physFsID folder id child : Nat} {names : List CString}
  {entries : List RamdiskEntry} {old : Vfs}

theorem initial_discovered (hTree : RamdiskTree ramdisk) : Discovered ramdisk Vfs.initial := by
  have hBounds : ∀ i node, Vfs.initial.nodes.get i = some node → i < 4 := Vfs.initial_valid.lt_next
  have hMount : Vfs.initial.At Vfs.mountRoot ([] ++ [mountName]) :=
    .step .top rfl rfl rfl ⟨by decide, by decide, by decide, by decide⟩ (by decide) rfl
  have hRamdisk : Vfs.initial.At Vfs.ramdiskRoot ([] ++ [mountName] ++ [Vfs.ramdiskName]) :=
    .step hMount rfl rfl rfl ⟨by decide, by decide, by decide, by decide⟩ (by decide) rfl
  have hPipe : Vfs.initial.At Vfs.pipeRoot ([] ++ [mountName] ++ [Vfs.pipeName]) :=
    .step hMount rfl rfl rfl ⟨by decide, by decide, by decide, by decide⟩ (by decide) rfl
  refine ⟨initial_mirrors hTree, ⟨_, rfl, rfl⟩, ?_, ?_, ?_⟩
  · intro i node hNode
    have hLt := hBounds i node hNode
    interval_cases i
    · exact ⟨_, .top⟩
    · exact ⟨_, hMount⟩
    · exact ⟨_, hRamdisk⟩
    · exact ⟨_, hPipe⟩
  · intro i node hNode
    have hLt := hBounds i node hNode
    interval_cases i <;> cases hNode
    · exact pairwise_singleton _ _
    · refine pairwise_cons.mpr ⟨fun c hc name hFirst hSecond => ?_, pairwise_singleton _ _⟩
      obtain rfl := mem_singleton.mp hc
      have hPipeName : some Vfs.pipeName = some name := of_decide_eq_true hFirst
      have hRamdiskName : some Vfs.ramdiskName = some name := of_decide_eq_true hSecond
      exact absurd (hPipeName.trans hRamdiskName.symm) (by decide)
    · exact List.Pairwise.nil
    · exact List.Pairwise.nil
  · intro i node hNode hServed c child hChild hParent hNotMount
    have hLt := hBounds c child hChild
    interval_cases c <;> cases hChild <;> cases hParent
    · exact absurd rfl hNotMount
    · exact absurd hServed (by decide)
    · exact absurd hServed (by decide)

/-- The node of an entry that had none keeps the tree as it should be. -/
theorem Discovered.insert (hWell : WellNamed ramdisk) (h : Discovered ramdisk vfs)
    (hNode : vfs.nodes.get id = some node)
    (hEntry : ramdisk.childOf node.physFsID entry.name = some entry)
    (hMissing : vfs.findChild id entry.name = none) :
    Discovered ramdisk (createVfsNode vfs entry id).2 := by
  have hSome := isSome_of_eq_some hNode
  have hMember := (mem_of_childOf hEntry).1
  refine ⟨h.toMirrors.discovered hWell.numbered hNode hEntry, ?_, ?_, ?_, ?_⟩
  · obtain ⟨top, hTop, hType⟩ := h.top
    exact ⟨_, get_insert_old h.valid hSome hTop, by rwa [Vfs.type_linked]⟩
  · intro i new hGet
    obtain ⟨rfl, rfl⟩ | ⟨old, hOld, rfl⟩ := Vfs.get_insert_cases h.valid hSome hGet
    · obtain ⟨names, hAt⟩ := h.located id node hNode
      have hType : entryNodeType entry ≠ .root := by
        unfold entryNodeType
        split <;> simp
      exact ⟨_, .step (hAt.insert h.valid hSome hMissing _ _ _) hGet rfl rfl
        (hWell.plain entry hMember) hType (Vfs.findChild_insert_new h.valid hSome)⟩
    · obtain ⟨names, hAt⟩ := h.located i old hOld
      exact ⟨names, hAt.insert h.valid hSome hMissing _ _ _⟩
  · exact h.distinct.insert h.valid hSome hMissing _ _ _
  · intro i new hGet hServed c child hChild hParent hNotMount name found hName hFound
    obtain ⟨rfl, rfl⟩ | ⟨oldChild, hOldChild, rfl⟩ := Vfs.get_insert_cases h.valid hSome hChild
    · cases hParent
      cases hName
      rw [createVfsNode, get_insert_old h.valid hSome hNode] at hGet
      cases hGet
      rw [Vfs.physFsID_linked, hEntry] at hFound
      cases hFound
      rfl
    · rw [Vfs.parent_linked] at hParent
      rw [Vfs.name_linked] at hName
      rw [Vfs.type_linked]
      obtain ⟨old, hOld⟩ :=
        isSome_iff_exists.mp (h.valid.parent c oldChild hOldChild i hParent).2
      rw [createVfsNode, get_insert_old h.valid hSome hOld] at hGet
      cases hGet
      rw [createVfsNode, h.valid.getDelegate_insert hSome hOld] at hServed
      rw [Vfs.physFsID_linked] at hFound
      exact h.typed i old hOld hServed c oldChild hOldChild hParent hNotMount name found hName hFound

theorem WellNamed.childOf_eq (hWell : WellNamed ramdisk) (hLt : physFsID < wordSize)
    (hEntry : entry ∈ ramdiskChildren ramdisk physFsID) :
    ramdisk.childOf physFsID entry.name = some entry := by
  obtain ⟨hMember, hParent⟩ := mem_filter.mp hEntry
  have hParent : entry.parentid = physFsID := by
    rw [of_decide_eq_true hParent, wrap32_of_lt hLt]
  have hSiblings := hWell.siblings
  rw [childOf]
  generalize ramdisk.headers = headers at hMember hSiblings
  induction headers with
  | nil => cases hMember
  | cons first rest ih =>
    obtain ⟨hFirst, hRest⟩ := pairwise_cons.mp hSiblings
    rcases mem_cons.mp hMember with rfl | hMember
    · exact find?_cons_of_pos (by simp [hParent])
    · rw [find?_cons_of_neg]
      · exact ih hMember hRest
      · have hApart := hFirst entry hMember
        rw [decide_eq_true_eq]
        rintro ⟨hUp, hName⟩
        exact hApart (hUp.trans hParent.symm) hName

theorem Mirrors.physFsID_lt (hTree : RamdiskTree ramdisk) (h : Mirrors ramdisk vfs)
    (hNode : vfs.nodes.get id = some node)
    (hServed : vfs.getDelegate id = some .ramdisk) : node.physFsID < wordSize := by
  obtain ⟨entry, hFind, hId⟩ := h.backed id node hNode hServed
  rw [← hId]
  rw [findById] at hFind
  split at hFind
  · cases hFind
    rw [hTree.root]
    decide
  · exact hTree.ids entry (mem_of_find?_eq_some hFind)

/-- A tree after some children of one folder were added. -/
structure Grown (folder : Nat) (old new : Vfs) : Prop where
  kept : ∀ node, old.nodes.get folder = some node →
    ∃ added, new.nodes.get folder = some { node with children := added ++ node.children }
  others : ∀ i, i ≠ folder → (old.nodes.get i).isSome → new.nodes.get i = old.nodes.get i

theorem Grown.refl (folder : Nat) (vfs : Vfs) : Grown folder vfs vfs :=
  ⟨fun _ hNode => ⟨[], hNode⟩, fun _ _ _ => rfl⟩

theorem Grown.trans {first second third : Vfs} (left : Grown folder first second)
    (right : Grown folder second third) : Grown folder first third := by
  refine ⟨fun node hNode => ?_, fun i hi hSome => ?_⟩
  · obtain ⟨added, hAdded⟩ := left.kept node hNode
    obtain ⟨more, hMore⟩ := right.kept _ hAdded
    refine ⟨more ++ added, ?_⟩
    rw [hMore, append_assoc]
  · have hSame := left.others i hi hSome
    rw [right.others i hi (by rw [hSame]; exact hSome), hSame]

theorem Grown.insert (hValid : vfs.Valid) (hSome : (vfs.nodes.get folder).isSome)
    (entry : RamdiskEntry) : Grown folder vfs (createVfsNode vfs entry folder).2 := by
  refine ⟨fun node hNode => ⟨[vfs.nodeNextID], ?_⟩, fun i hi hOther => ?_⟩
  · rw [createVfsNode, get_insert_old hValid hSome hNode, Vfs.linked, if_pos rfl]
    rfl
  · obtain ⟨other, hOther⟩ := isSome_iff_exists.mp hOther
    rw [createVfsNode, get_insert_old hValid hSome hOther, Vfs.linked, if_neg hi, hOther]

def PathsFit (ramdisk : Ramdisk) (vfs : Vfs) (folder physFsID : Nat) : Prop :=
  ∀ names, vfs.At folder names → ∀ entry ∈ ramdiskChildren ramdisk physFsID,
    (slash :: joined names ++ slash :: entry.name).length < pathMax

theorem refreshChild_eq (h : Discovered ramdisk vfs)
    (hAt : vfs.At folder names) (hPlain : PlainName entry.name)
    (hFits : (slash :: joined names ++ slash :: entry.name).length < pathMax) :
    refreshChild folder vfs entry =
      .ok (if (vfs.findChild folder entry.name).isSome then vfs
        else (createVfsNode vfs entry folder).2) := by
  obtain ⟨top, hTop, hType⟩ := h.top
  simp only [length_append, length_cons] at hFits
  have hPath : childPath vfs folder entry.name = .ok (slash :: joined names ++ slash :: entry.name) := by
    rw [childPath, getRealPathToNode_under h.valid hTop hType hAt.under (by omega)]
    change (if pathMax ≤ (slash :: joined names).length + 1 + entry.name.length then _ else _) = _
    rw [if_neg]
    simp only [length_cons]
    omega
  rw [refreshChild, hPath]
  change (match vfs.findExisting (slash :: joined names ++ slash :: entry.name) with
    | none => Except.error Stop.outOfFuel
    | some ⟨_, some _, _⟩ => .ok vfs
    | some ⟨_, none, _⟩ => .ok (createVfsNode vfs entry folder).2) = _
  rw [findExisting_child hAt hPlain]
  cases vfs.findChild folder entry.name <;> rfl

/-- The children that were asked for have nodes, the tree is as it should be, the
folder is where it was and nothing else has changed. -/
structure Completes (ramdisk : Ramdisk) (folder : Nat) (names : List CString)
    (entries : List RamdiskEntry) (old new : Vfs) : Prop where
  discovered : Discovered ramdisk new
  located : new.At folder names
  served : new.getDelegate folder = some .ramdisk
  grown : Grown folder old new
  present : ∀ entry ∈ entries, (new.findChild folder entry.name).isSome
  found : ∀ name child, old.findChild folder name = some child →
    new.findChild folder name = some child

/-- The loop over the entries adds a node for each of them that has none. -/
theorem refresh_completes (hWell : WellNamed ramdisk)
    (hEntries : ∀ entry ∈ entries, entry ∈ ramdiskChildren ramdisk physFsID)
    (hFits : ∀ entry ∈ entries, (slash :: joined names ++ slash :: entry.name).length < pathMax)
    (h : Discovered ramdisk vfs) (hAt : vfs.At folder names)
    (hNode : vfs.nodes.get folder = some node) (hPhys : node.physFsID = physFsID)
    (hServed : vfs.getDelegate folder = some .ramdisk) :
    ∃ next, entries.foldlM (refreshChild folder) vfs = .ok next ∧
      Completes ramdisk folder names entries vfs next := by
  induction entries generalizing vfs node with
  | nil => exact ⟨vfs, rfl, h, hAt, hServed, Grown.refl folder vfs, by simp, fun _ _ hFind => hFind⟩
  | cons entry entries ih =>
    obtain ⟨hEntry, hRest⟩ := forall_mem_cons.mp hEntries
    obtain ⟨hFit, hRestFits⟩ := forall_mem_cons.mp hFits
    have hMember := (mem_filter.mp hEntry).1
    have hSome := isSome_of_eq_some hNode
    have hRound := refreshChild_eq h hAt (hWell.plain entry hMember) hFit
    rw [foldlM_cons, hRound]
    cases hFind : vfs.findChild folder entry.name with
    | some child =>
      obtain ⟨next, hLoop, hNext⟩ := ih hRest hRestFits h hAt hNode hPhys hServed
      refine ⟨next, hLoop, hNext.discovered, hNext.located, hNext.served, hNext.grown, ?_,
        hNext.found⟩
      refine forall_mem_cons.mpr ⟨?_, hNext.present⟩
      rw [hNext.found entry.name child hFind]
      rfl
    | none =>
      have hChild : ramdisk.childOf node.physFsID entry.name = some entry := by
        rw [hPhys]
        refine hWell.childOf_eq ?_ hEntry
        rw [← hPhys]
        exact h.toMirrors.physFsID_lt hWell.toRamdiskTree hNode hServed
      have hDiscovered := h.insert hWell hNode hChild hFind
      have hMade : (createVfsNode vfs entry folder).2.findChild folder entry.name =
          some vfs.nodeNextID := Vfs.findChild_insert_new h.valid hSome
      obtain ⟨next, hLoop, hNext⟩ := ih hRest hRestFits hDiscovered
        (hAt.insert h.valid hSome hFind _ _ _) (get_insert_old h.valid hSome hNode)
        (by rw [Vfs.physFsID_linked, hPhys]) ((h.valid.getDelegate_insert hSome hNode).trans hServed)
      refine ⟨next, hLoop, hNext.discovered, hNext.located, hNext.served,
        (Grown.insert h.valid hSome entry).trans hNext.grown, ?_, ?_⟩
      · refine forall_mem_cons.mpr ⟨?_, hNext.present⟩
        rw [hNext.found _ _ hMade]
        rfl
      · exact fun name child hOld => hNext.found name child
          (Vfs.findChild_insert_old h.valid hSome hFind hOld)

/-- The node of an entry: it is served by the ramdisk delegate and has the name, the
type and the identifier of the entry. -/
def backs (vfs : Vfs) (entry : RamdiskEntry) (id : Nat) : Bool :=
  vfs.getDelegate id = some .ramdisk ∧ (vfs.nodes.get id).any fun node =>
    node.name = some entry.name ∧ node.type = entryNodeType entry ∧ node.physFsID = entry.id

/-- A child of a folder with the name of one of its entries is the node of that
entry. -/
theorem Discovered.backs_eq (hWell : WellNamed ramdisk) (h : Discovered ramdisk vfs)
    (hNode : vfs.nodes.get folder = some node)
    (hServed : vfs.getDelegate folder = some .ramdisk)
    (hEntry : entry ∈ ramdiskChildren ramdisk node.physFsID)
    (hChild : child ∈ node.children) : backs vfs entry child = vfs.hasName entry.name child := by
  obtain ⟨content, hContent, hParent⟩ := h.valid.child folder node hNode child hChild
  rw [backs, Vfs.hasName, hContent, any_some, any_some, decide_eq_decide]
  constructor
  · rintro ⟨-, hBacks⟩
    exact (of_decide_eq_true hBacks).1
  · intro hName
    have hPhys := h.toMirrors.physFsID_lt hWell.toRamdiskTree hNode hServed
    obtain ⟨hMember, hUp⟩ := mem_filter.mp hEntry
    have hNotMount : child ≠ Vfs.mountRoot := by
      rintro rfl
      obtain ⟨mount, hMount, hMountName, hMountUp⟩ := h.mountRoot
      obtain rfl : mount = content := some.inj (hMount.symm.trans hContent)
      obtain rfl : Vfs.root = folder := some.inj (hMountUp.symm.trans hParent)
      obtain ⟨root, hRoot, -, hZero⟩ := h.root
      obtain rfl : root = node := some.inj (hRoot.symm.trans hNode)
      rw [hZero] at hUp
      exact hWell.mount entry hMember (of_decide_eq_true hUp)
        (some.inj (hName.symm.trans hMountName))
    obtain ⟨hDelegate, own, found, hOwn, hFound, hId⟩ :=
      h.child folder node hNode hServed child content hContent hParent hNotMount
    obtain rfl : entry.name = own := some.inj (hName.symm.trans hOwn)
    have hSame : found = entry :=
      some.inj (hFound.symm.trans (hWell.childOf_eq hPhys hEntry))
    subst hSame
    refine ⟨?_, decide_eq_true ⟨hName, ?_, hId⟩⟩
    · rw [h.valid.getDelegate_eq hContent, hDelegate, hParent]
      exact hServed
    · exact h.typed folder node hNode hServed child content hContent hParent hNotMount _ _ hName hFound

/-- What is asked of the refresh of a folder. -/
structure Refreshed (ramdisk : Ramdisk) (folder : Nat) (before after : Folders) : Prop where
  /-- Every child on the ramdisk has exactly one node in the folder. -/
  one : ∀ node, after.fs.vfs.nodes.get folder = some node →
    ∀ entry ∈ ramdiskChildren ramdisk node.physFsID,
      ∃ child, node.children.filter (backs after.fs.vfs entry) = [child]
  /-- Every other node in the folder is the one where the delegates are mounted. -/
  only : ∀ node, after.fs.vfs.nodes.get folder = some node → ∀ child ∈ node.children,
    child = Vfs.mountRoot ∨
      ∃ entry ∈ ramdiskChildren ramdisk node.physFsID, backs after.fs.vfs entry child
  grown : Grown folder before.fs.vfs after.fs.vfs
  contentsValid : after.contentsValid = update before.contentsValid folder true

theorem mem_ramdiskChildren (hLt : physFsID < wordSize) {name : CString}
    (h : ramdisk.childOf physFsID name = some entry) :
    entry ∈ ramdiskChildren ramdisk physFsID := by
  obtain ⟨hMember, hParent, -⟩ := mem_of_childOf h
  refine mem_filter.mpr ⟨hMember, decide_eq_true ?_⟩
  rw [hParent, wrap32_of_lt hLt]

theorem refresh_unchanged (hWell : WellNamed ramdisk)
    (hEntries : ∀ entry ∈ entries, entry ∈ ramdisk.headers)
    (hFits : ∀ entry ∈ entries, (slash :: joined names ++ slash :: entry.name).length < pathMax)
    (h : Discovered ramdisk vfs) (hAt : vfs.At folder names)
    (hPresent : ∀ entry ∈ entries, (vfs.findChild folder entry.name).isSome) :
    entries.foldlM (refreshChild folder) vfs = .ok vfs := by
  induction entries with
  | nil => rfl
  | cons entry entries ih =>
    obtain ⟨hEntry, hRest⟩ := forall_mem_cons.mp hEntries
    obtain ⟨hFit, hRestFits⟩ := forall_mem_cons.mp hFits
    obtain ⟨hThere, hRestThere⟩ := forall_mem_cons.mp hPresent
    rw [foldlM_cons, refreshChild_eq h hAt (hWell.plain entry hEntry) hFit, if_pos hThere]
    exact ih hRest hRestFits hRestThere

theorem Completes.one (hWell : WellNamed ramdisk) (hNode : vfs.nodes.get folder = some node)
    (h : Completes ramdisk folder names (ramdiskChildren ramdisk node.physFsID) old vfs)
    (hEntry : entry ∈ ramdiskChildren ramdisk node.physFsID) :
    ∃ child, node.children.filter (backs vfs entry) = [child] := by
  obtain ⟨child, hChild⟩ := isSome_iff_exists.mp (h.present entry hEntry)
  refine ⟨child, ?_⟩
  rw [← h.discovered.distinct.filter_eq hNode hChild]
  exact filter_congr fun other hOther =>
    h.discovered.backs_eq hWell hNode h.served hEntry hOther

theorem Completes.only (hWell : WellNamed ramdisk)
    (h : Completes ramdisk folder names entries old vfs)
    (hNode : vfs.nodes.get folder = some node)
    (hChild : child ∈ node.children) :
    child = Vfs.mountRoot ∨
      ∃ entry ∈ ramdiskChildren ramdisk node.physFsID, backs vfs entry child := by
  by_cases hMount : child = Vfs.mountRoot
  · exact Or.inl hMount
  · have hDiscovered := h.discovered
    obtain ⟨content, hContent, hParent⟩ := hDiscovered.valid.child folder node hNode child hChild
    obtain ⟨-, name, entry, hName, hEntry, -⟩ :=
      hDiscovered.child folder node hNode h.served child content hContent hParent hMount
    have hListed : entry ∈ ramdiskChildren ramdisk node.physFsID := mem_ramdiskChildren
      (hDiscovered.toMirrors.physFsID_lt hWell.toRamdiskTree hNode h.served) hEntry
    refine Or.inr ⟨entry, hListed, ?_⟩
    rw [hDiscovered.backs_eq hWell hNode h.served hListed hChild, Vfs.hasName, hContent,
      any_some, hName, (mem_of_childOf hEntry).2.2]
    exact decide_eq_true rfl

end Tree

section Refresh

variable {ramdisk : Ramdisk} {folders : Folders} {folder : Nat} {node : FsNode}

/-- The state after a refresh whose loop has left some tree. -/
def Folders.refreshed (folders : Folders) (folder : Nat) (vfs : Vfs) : Folders where
  fs := { folders.fs with
    vfs := vfs
    transactions := folders.fs.transactions.nextTransaction.2.setStatus
      folders.fs.transactions.nextTransactionID .finished }
  contentsValid := update folders.contentsValid folder true

theorem requestDirectoryRefresh_eq {next : Vfs} {entry : RamdiskEntry}
    (hNode : folders.fs.vfs.nodes.get folder = some node)
    (hEntry : folders.fs.ramdisk.findById node.physFsID = some entry)
    (hLoop : (ramdiskChildren folders.fs.ramdisk node.physFsID).foldlM (refreshChild folder)
      folders.fs.vfs = .ok next) :
    requestDirectoryRefresh folders folder =
      .ok (folders.fs.transactions.nextTransactionID, .successful, folders.refreshed folder next) := by
  have hFuel : (ramdiskChildren folders.fs.ramdisk node.physFsID).length <
      folders.fs.ramdisk.headers.length + 1 + 0 :=
    Nat.lt_succ_of_le (length_filter_le ..)
  have hRounds : refreshFrom folders.fs.ramdisk folder node.physFsID
      (folders.fs.ramdisk.headers.length + 1) 0 folders.fs.vfs = _ :=
    refreshFrom_eq hFuel (Nat.succ_pos _)
  rw [drop_zero, hLoop] at hRounds
  rw [requestDirectoryRefresh, Vfs.getNodeById, hNode]
  dsimp only
  rw [hEntry]
  rw [hRounds]
  rfl

/-- A refresh of a folder of a discovered tree, and a second one. -/
theorem refresh_twice (hWell : WellNamed ramdisk) (hRamdisk : folders.fs.ramdisk = ramdisk)
    (h : Discovered ramdisk folders.fs.vfs)
    (hNode : folders.fs.vfs.nodes.get folder = some node)
    (hServed : folders.fs.vfs.getDelegate folder = some .ramdisk)
    (hFits : PathsFit ramdisk folders.fs.vfs folder node.physFsID) :
    ∃ id after, requestDirectoryRefresh folders folder = .ok (id, .successful, after) ∧
      after.fs.ramdisk = ramdisk ∧ Discovered ramdisk after.fs.vfs ∧
      Refreshed ramdisk folder folders after ∧
      ∃ id' again, requestDirectoryRefresh after folder = .ok (id', .successful, again) ∧
        again.fs.vfs = after.fs.vfs ∧ again.contentsValid = after.contentsValid := by
  obtain ⟨names, hAt⟩ := h.located folder node hNode
  obtain ⟨entry, hEntry, -⟩ := h.backed folder node hNode hServed
  obtain ⟨next, hLoop, hNext⟩ := refresh_completes hWell (fun _ hMember => hMember) (hFits names hAt)
    h hAt hNode rfl hServed
  obtain ⟨added, hAdded⟩ := hNext.grown.kept node hNode
  have hUnchanged := refresh_unchanged hWell (fun _ hMember => (mem_filter.mp hMember).1)
    (hFits names hAt) hNext.discovered hNext.located hNext.present
  subst hRamdisk
  have hFirst := requestDirectoryRefresh_eq hNode hEntry hLoop
  refine ⟨_, _, hFirst, rfl, hNext.discovered, ⟨?_, ?_, hNext.grown, rfl⟩, ?_⟩
  · intro content hContent other hOther
    obtain rfl : _ = content := some.inj (hAdded.symm.trans hContent)
    exact hNext.one hWell hAdded hOther
  · intro content hContent child hChild
    exact hNext.only hWell hContent hChild
  · have hSecond : requestDirectoryRefresh (folders.refreshed folder next) folder = _ :=
      requestDirectoryRefresh_eq hAdded hEntry hUnchanged
    exact ⟨_, _, hSecond, rfl, update_idem ..⟩

/-- What discovers nodes of the ramdisk. -/
inductive TreeEvent
  | discover (path : CString)
  | refresh (folder : Nat)

/-- A discovery asks for the first component of its path that has no node. A
refresh is of a folder whose paths fit into `PATH_MAX` bytes. -/
inductive TreeStep : Folders → TreeEvent → Folders → Prop
  | discover {folders : Folders} {path name : CString} {parent id : Nat} {status : FsDiscoveryStatus}
      {next : FileSystem} (hFind : folders.fs.vfs.findExisting path = some ⟨parent, none, name⟩)
      (hServed : folders.fs.vfs.getDelegate parent = some .ramdisk)
      (hAsk : requestDiscovery folders.fs parent name = .ok (id, status, next)) :
      TreeStep folders (.discover path) { folders with fs := next }
  | refresh {folders next : Folders} {folder id : Nat} {node : FsNode}
      {status : FsDirectoryRefreshStatus} (hNode : folders.fs.vfs.nodes.get folder = some node)
      (hServed : folders.fs.vfs.getDelegate folder = some .ramdisk)
      (hFits : PathsFit folders.fs.ramdisk folders.fs.vfs folder node.physFsID)
      (hRefresh : requestDirectoryRefresh folders folder = .ok (id, status, next)) :
      TreeStep folders (.refresh folder) next

/-- The node that a discovery adds is the one of its entry. -/
theorem Discovered.requestDiscovery (hWell : WellNamed ramdisk) {fs next : FileSystem}
    (hRamdisk : fs.ramdisk = ramdisk) (h : Discovered ramdisk fs.vfs) {path name : CString}
    {parent id : Nat} {status : FsDiscoveryStatus}
    (hFind : fs.vfs.findExisting path = some ⟨parent, none, name⟩)
    (hServed : fs.vfs.getDelegate parent = some .ramdisk)
    (hAsk : FileSystem.requestDiscovery fs parent name = .ok (id, status, next)) :
    next.ramdisk = ramdisk ∧ Discovered ramdisk next.vfs := by
  rw [Vfs.findExisting_eq_walk, some.injEq] at hFind
  have hMissing : fs.vfs.findChild parent name = none := by
    obtain ⟨-, -, -, -, hStep⟩ := walk_missing (by rw [hFind])
    rw [hFind] at hStep
    exact (Vfs.step_eq_none.mp hStep).2.2
  unfold FileSystem.requestDiscovery at hAsk
  split at hAsk
  · cases hAsk
  · rename_i node hNode
    have hBelow := h.entryBelow_eq hWell.numbered hNode hServed name
    rw [← hRamdisk] at hBelow
    dsimp only at hAsk
    rw [hBelow] at hAsk
    split at hAsk
    · cases hAsk
    · obtain ⟨found, hFound, hAsk⟩ := bind_eq_ok_iff.mp hAsk
      split at hAsk
      · rename_i entry
        cases hAsk
        have hEntry : ramdisk.childOf node.physFsID name = some entry := by
          rw [← hRamdisk]
          exact Except.ok.inj hFound
        obtain ⟨-, -, rfl⟩ := mem_of_childOf hEntry
        exact ⟨hRamdisk, h.insert hWell hNode hEntry hMissing⟩
      · cases hAsk
        exact ⟨hRamdisk, h⟩

theorem TreeStep.discovered (hWell : WellNamed ramdisk) {next : Folders} {event : TreeEvent}
    (hStep : TreeStep folders event next)
    (h : folders.fs.ramdisk = ramdisk ∧ Discovered ramdisk folders.fs.vfs) :
    next.fs.ramdisk = ramdisk ∧ Discovered ramdisk next.fs.vfs := by
  cases hStep with
  | discover hFind hServed hAsk => exact h.2.requestDiscovery hWell h.1 hFind hServed hAsk
  | refresh hNode hServed hFits hRefresh =>
    rw [h.1] at hFits
    obtain ⟨id, after, hAfter, hRamdisk, hDiscovered, -⟩ :=
      refresh_twice hWell h.1 h.2 hNode hServed hFits
    rw [hAfter] at hRefresh
    cases hRefresh
    exact ⟨hRamdisk, hDiscovered⟩

/-- Whatever was discovered before, the refresh of a folder of the ramdisk whose paths fit
succeeds, leaves exactly one node for every child, keeps the nodes that were there and changes no
other folder; a second refresh changes nothing. -/
theorem refresh_mirrors_folder (hWell : WellNamed ramdisk) {events : List TreeEvent}
    (run : Run TreeStep ⟨initial ramdisk, fun _ => false⟩ events folders) {folder : Nat}
    {node : FsNode} (hNode : folders.fs.vfs.nodes.get folder = some node)
    (hServed : folders.fs.vfs.getDelegate folder = some .ramdisk)
    (hFits : PathsFit ramdisk folders.fs.vfs folder node.physFsID) :
    ∃ id after, requestDirectoryRefresh folders folder = .ok (id, .successful, after) ∧
      Refreshed ramdisk folder folders after ∧
      ∃ id' again, requestDirectoryRefresh after folder = .ok (id', .successful, again) ∧
        again.fs.vfs = after.fs.vfs ∧ again.contentsValid = after.contentsValid := by
  have hStart : (initial ramdisk).ramdisk = ramdisk ∧ Discovered ramdisk (initial ramdisk).vfs :=
    ⟨rfl, initial_discovered hWell.toRamdiskTree⟩
  have hKept : ∀ s event t, s.fs.ramdisk = ramdisk ∧ Discovered ramdisk s.fs.vfs →
      TreeStep s event t → t.fs.ramdisk = ramdisk ∧ Discovered ramdisk t.fs.vfs :=
    fun _ _ _ h hStep => hStep.discovered hWell h
  obtain ⟨hRamdisk, hDiscovered⟩ := run.invariant hStart hKept
  obtain ⟨id, after, hFirst, -, -, hRefreshed, hSecond⟩ :=
    refresh_twice hWell hRamdisk hDiscovered hNode hServed hFits
  exact ⟨id, after, hFirst, hRefreshed, hSecond⟩

def twoEntries : Ramdisk :=
  ⟨rootEntry, [⟨.folder, 1, 0, [97], 0, none, true, 0⟩, ⟨.file, 2, 0, [98], 0, none, true, 0⟩], 3⟩

theorem twoEntries_wellNamed : WellNamed twoEntries := by
  refine ⟨⟨rfl, rfl, by decide, by decide, by decide⟩, ?_, by decide, by decide⟩
  intro entry hEntry
  fin_cases hEntry
  · exact ⟨by decide, by decide, by decide, by decide⟩
  · exact ⟨by decide, by decide, by decide, by decide⟩

/-- The state after the discovery of `/a`. -/
def discoveredFolder : Folders :=
  ⟨((requestDiscovery (initial twoEntries) Vfs.root [97]).toOption.map fun (_, _, fs) => fs).getD
    (initial twoEntries), fun _ => false⟩

theorem run_discoveredFolder :
    Run TreeStep ⟨initial twoEntries, fun _ => false⟩ [.discover [slash, 97]] discoveredFolder :=
  Run.single (TreeStep.discover rfl rfl rfl)

/-- The folder `/a` has been discovered and `/b` has not: a refresh of the root leaves
one node for each of them. -/
theorem refresh_mirrors_folder_root :
    ∃ id after, requestDirectoryRefresh discoveredFolder Vfs.root = .ok (id, .successful, after) ∧
      Refreshed twoEntries Vfs.root discoveredFolder after := by
  have hFits : PathsFit twoEntries discoveredFolder.fs.vfs Vfs.root 0 := by
    intro names hAt entry hEntry
    cases hAt with
    | top =>
      have hChildren : ∀ entry ∈ ramdiskChildren twoEntries 0,
          (slash :: joined [] ++ slash :: entry.name).length < pathMax := by decide
      exact hChildren entry hEntry
    | step hParent hNode hUp hName hPlain hType hFind =>
      cases hNode
      cases hUp
  have hNode : discoveredFolder.fs.vfs.nodes.get Vfs.root =
      some ⟨some .ramdisk, .root, Vfs.root, 0, none, none, [4, Vfs.mountRoot]⟩ := rfl
  obtain ⟨id, after, hFirst, hRefreshed, -⟩ :=
    refresh_mirrors_folder twoEntries_wellNamed run_discoveredFolder hNode rfl hFits
  exact ⟨id, after, hFirst, hRefreshed⟩

end Refresh

end FileSystem

end Kernel
