import MeetiX.Kernel.FileSystem.Open

/-! Where the discovery of a path ends. One pass over the components makes the nodes of those that
are only on the ramdisk; the handler of `fsOpen`, which starts again at the root for each of them,
is shown to end where the pass ends. It opens the node once, or twice after a discovery. -/
namespace Kernel.FileSystem

open Vfs List FsTransactionStore

inductive Lookup
  | found (node : Nat)
  | missing (parent : Nat)
  /-- The ramdisk delegate follows a null pointer. -/
  | crashed
  /-- A node on the way is not served by the ramdisk delegate. -/
  | elsewhere
  deriving DecidableEq, Repr

/-- The nodes after a path was looked up from a node on, and where it led. -/
def resolve (ramdisk : Ramdisk) : Vfs → Nat → List CString → Vfs × Lookup
  | vfs, node, [] =>
    (vfs, if vfs.getDelegate node = some .ramdisk then .found node else .elsewhere)
  | vfs, node, name :: rest =>
    match vfs.step node name with
    | some next => resolve ramdisk vfs next rest
    | none =>
      if vfs.getDelegate node ≠ some .ramdisk then (vfs, .elsewhere)
      else
        match (vfs.getNodeById node).map fun parent => entryBelow ramdisk parent name with
        | some (.ok (some ramdiskNode)) =>
          resolve ramdisk (createVfsNode vfs ramdiskNode node).2 vfs.nodeNextID rest
        | some (.ok none) => (vfs, .missing node)
        | _ => (vfs, .crashed)

section Resolve

variable {ramdisk : Ramdisk} {vfs : Vfs} {name : CString} {node : Nat} {parent : FsNode}
variable {ramdiskNode : RamdiskEntry}

theorem resolve_append {node middle : Nat} {first : List CString} (second : List CString)
    (h : (vfs.walk node first).child = some middle) :
    resolve ramdisk vfs node (first ++ second) = resolve ramdisk vfs middle second := by
  induction first generalizing node with
  | nil =>
    cases h
    rfl
  | cons name rest ih =>
    rw [cons_append, resolve]
    rw [walk] at h
    split at h
    · cases h
    · rename_i hStep
      rw [hStep]
      exact ih h

/-- A walk that ends early stops in front of the component it names. -/
theorem walk_missing {path : List CString} (h : (vfs.walk node path).child = none) :
    ∃ first second, path = first ++ (vfs.walk node path).nameCurrent :: second ∧
      (vfs.walk node first).child = some (vfs.walk node path).parent ∧
      vfs.step (vfs.walk node path).parent (vfs.walk node path).nameCurrent = none := by
  induction path generalizing node with
  | nil => cases h
  | cons name rest ih =>
    rw [walk] at h ⊢
    split at h
    · rename_i hStep
      exact ⟨[], rest, rfl, rfl, hStep⟩
    · rename_i hStep
      obtain ⟨first, second, hPath, hWalk, hRest⟩ := ih h
      refine ⟨name :: first, second, by rw [cons_append, ← hPath], ?_, hRest⟩
      rw [walk, hStep]
      exact hWalk

theorem resolve_missing (rest : List CString) (hStep : vfs.step node name = none) :
    resolve ramdisk vfs node (name :: rest) =
      if vfs.getDelegate node ≠ some .ramdisk then (vfs, .elsewhere)
      else
        match (vfs.getNodeById node).map fun parent => entryBelow ramdisk parent name with
        | some (.ok (some ramdiskNode)) =>
          resolve ramdisk (createVfsNode vfs ramdiskNode node).2 vfs.nodeNextID rest
        | some (.ok none) => (vfs, .missing node)
        | _ => (vfs, .crashed) := by
  rw [resolve, hStep]

theorem entryBelow_name
    (h : entryBelow ramdisk parent name = .ok (some ramdiskNode)) : ramdiskNode.name = name := by
  rw [entryBelow] at h
  split at h
  · cases h
  · rw [Ramdisk.findChild] at h
    split at h
    · cases h
    · rename_i found hFound
      cases h
      split at hFound
      · cases hFound
      · have hName := find?_some (Option.some.inj hFound)
        exact (decide_eq_true_iff.mp hName).2

theorem entryBelow_error {stop : Stop}
    (h : entryBelow ramdisk parent name = .error stop) : stop = .nullPointer := by
  rw [entryBelow] at h
  split at h
  · cases h
  · split at h
    · cases h
      rfl
    · cases h

/-- The node made for a missing component is where the path now leads. -/
theorem walk_createVfsNode (hValid : vfs.Valid) (hRoot : (vfs.nodes.get root).isSome)
    {parent : Nat} (hParent : (vfs.nodes.get parent).isSome)
    (hStep : vfs.step parent name = none) (hName : ramdiskNode.name = name) {first : List CString}
    (hWalk : (vfs.walk root first).child = some parent) :
    ((createVfsNode vfs ramdiskNode parent).2.walk root (first ++ [name])).child =
      some vfs.nodeNextID := by
  subst hName
  obtain ⟨hUp, hDot, hMissing⟩ := step_eq_none.mp hStep
  have hFirst : ((createVfsNode vfs ramdiskNode parent).2.walk root first).child =
      some parent := walk_insert hValid hParent hMissing hRoot hWalk
  rw [walk_append _ hFirst, walk, step_eq_findChild hUp hDot, createVfsNode,
    findChild_insert_new hValid hParent]
  rfl

end Resolve

section Opens

def withTransactions (fs : FileSystem) (transactions : FsTransactionStore) : FileSystem :=
  { fs with transactions := transactions }

abbrev finish (fs : FileSystem) (id : Nat) : FileSystem :=
  fs.withTransactions (fs.transactions.setStatus id .finished)

abbrev without (fs : FileSystem) (id : Nat) : FileSystem :=
  fs.withTransactions (fs.transactions.removeTransaction id)

/-- One open of a node that the ramdisk delegate serves. -/
def openOnce (pid : Pid) (fs : FileSystem) (status : FsDiscoveryStatus) (node : Nat)
    (data : SyscallFsOpen) : Outcome (FileSystem × SyscallFsOpen) :=
  (startOpen pid 1 fs ⟨data, status, node, .error⟩).map fun (_, fs, handler) => (fs, handler.data)

def forget (transaction : Nat) (answer : FileSystem × SyscallFsOpen) : FileSystem × SyscallFsOpen :=
  (answer.1.without transaction, answer.2)

variable {pid : Pid} {fs : FileSystem}
variable {handler : DiscoveryHandler} {next : FileSystem} {node target : Nat}
variable {data : SyscallFsOpen}

theorem finishOpen_status {handler opened : OpenHandler} {stat : FinishStatus}
    (h : finishOpen pid fs handler = .ok (stat, next, opened)) : stat = .done := by
  rw [finishOpen] at h
  split at h
  · split at h
    · cases h
    · cases h
      rfl
  · cases h
    rfl

/-- The next transaction has got its number. -/
abbrev numbered (fs : FileSystem) : FileSystem :=
  fs.withTransactions fs.transactions.nextTransaction.2

theorem requestOpen_eq (handler : OpenHandler) : requestOpen fs handler =
    (openEntry fs.numbered handler).map fun (asked, opened) => (fs.transactions.nextTransactionID,
        asked.finish fs.transactions.nextTransactionID, opened) := by
  change (openEntry fs.numbered handler).bind _ = _
  cases openEntry fs.numbered handler <;> rfl

theorem startOpen_ramdisk {handler : OpenHandler}
    (hDelegate : fs.vfs.getDelegate handler.node = some .ramdisk) :
    startOpen pid 1 fs handler =
      match openEntry fs.numbered handler with
      | .error stop => .error stop
      | .ok (asked, opened) =>
        match finishOpen pid (asked.finish fs.transactions.nextTransactionID) opened with
        | .error stop => .error stop
        | .ok (_, next, finished) =>
          .ok (.immediateFinish, next.without fs.transactions.nextTransactionID, finished) := by
  rw [startOpen, hDelegate]
  rw [requestOpen_eq]
  cases openEntry fs.numbered handler with
  | error stop => rfl
  | ok asked =>
    obtain ⟨asked, opened⟩ := asked
    have hStatus : (asked.finish fs.transactions.nextTransactionID).transactions.getStatus
        fs.transactions.nextTransactionID = .finished := getStatus_setStatus _ _ _
    simp only [Except.map, bind, Except.bind, isTransactionWaiting, hStatus]
    cases hFinish : finishOpen pid (asked.finish fs.transactions.nextTransactionID) opened with
    | error stop => rfl
    | ok finished =>
      obtain ⟨stat, next, finished⟩ := finished
      obtain rfl := finishOpen_status hFinish
      rfl

theorem startOpen_status {handler : OpenHandler}
    (hDelegate : fs.vfs.getDelegate handler.node = some .ramdisk) :
    startOpen pid 1 fs handler =
      (startOpen pid 1 fs handler).map fun (_, next, opened) => (.immediateFinish, next, opened) := by
  rw [startOpen_ramdisk hDelegate]
  cases openEntry fs.numbered handler with
  | error stop => rfl
  | ok asked =>
    obtain ⟨asked, opened⟩ := asked
    dsimp only
    cases finishOpen pid (asked.finish fs.transactions.nextTransactionID) opened with
    | error stop => rfl
    | ok finished => rfl

/-- The work after a discovery is one open of the node that was found, or of
the last parent of one that was not. -/
theorem afterFinishTransaction_eq
    (hStatus : handler.status = .successful ∧ handler.node = some node ∨
      handler.status = .notFound ∧ handler.lastDiscoveredParent = some node)
    (hDelegate : fs.vfs.getDelegate node = some .ramdisk) :
    afterFinishTransaction pid fs handler =
      (openOnce pid fs handler.status node handler.data).map fun (next, data) =>
        (.done, next, { handler with data := data }) := by
  have hNode : (if handler.status = .notFound then handler.lastDiscoveredParent
      else handler.node) = some node := by
    rcases hStatus with ⟨hStatus, hNode⟩ | ⟨hStatus, hNode⟩ <;> simp [hStatus, hNode]
  have hEnds : handler.status = .successful ∨ handler.status = .notFound :=
    hStatus.imp And.left And.left
  rw [afterFinishTransaction, if_pos hEnds]
  rw [hNode]
  dsimp only
  rw [openOnce, startOpen_status hDelegate]
  cases startOpen pid 1 fs ⟨handler.data, handler.status, node, .error⟩ <;> rfl

theorem mapFile_with (ramdisk : Ramdisk) (transactions : FsTransactionStore) (node : FsNode)
    (openFlags : Int) (fd : Fd) :
    mapFile { fs with ramdisk := ramdisk, transactions := transactions } pid node openFlags fd =
      ((fs.mapFile pid node openFlags fd).1, { (fs.mapFile pid node openFlags fd).2 with
        ramdisk := ramdisk, transactions := transactions }) := by
  rw [mapFile, mapFile]
  split <;> rfl

theorem mapFile_vfs (node : FsNode) (openFlags : Int) (fd : Fd) :
    (fs.mapFile pid node openFlags fd).2.vfs = fs.vfs := by
  rw [mapFile]
  split <;> rfl

/-- The transactions after one that the ramdisk delegate finished at once. -/
def settled (fs : FileSystem) : FsTransactionStore :=
  (fs.transactions.nextTransaction.2.setStatus fs.transactions.nextTransactionID
    .finished).removeTransaction fs.transactions.nextTransactionID

theorem openOnce_found {target : Nat} {node : FsNode} (data : SyscallFsOpen)
    (hDelegate : fs.vfs.getDelegate target = some .ramdisk)
    (hNode : fs.vfs.getNodeById target = some node) :
    openOnce pid fs .successful target data =
      match fs.ramdisk.findById node.physFsID with
      | none => .error .nullPointer
      | some entry =>
        if entry.type ≠ .file then
          .ok (fs.withTransactions fs.settled, { data with status := .error, fd := -1 })
        else
          .ok ({ (fs.mapFile pid node data.flags.toInt (-1)).2 with
              ramdisk := fs.ramdisk.modifyById node.physFsID (truncate data.flags)
              transactions := fs.settled },
            { data with
              status := .successful, fd := (fs.mapFile pid node data.flags.toInt (-1)).1 }) := by
  rw [openOnce, startOpen_ramdisk hDelegate, openEntry]
  simp only [withTransactions, hNode]
  cases fs.ramdisk.findById node.physFsID with
  | none => rfl
  | some entry =>
    by_cases hType : entry.type = .file
    · simp only [hType, ne_eq, not_true_eq_false, if_false, finishOpen, hNode]
      rw [mapFile_with]
      rfl
    · simp only [hType, ne_eq]
      rfl

/-- A path that was not found is created if the flags say so, and otherwise the call fails. -/
theorem openOnce_missing {parent : Nat} {node : FsNode} (data : SyscallFsOpen)
    (hDelegate : fs.vfs.getDelegate parent = some .ramdisk)
    (hNode : fs.vfs.getNodeById parent = some node) (hValid : fs.vfs.Valid) :
    if creates data.flags then
      match fs.ramdisk.findById node.physFsID with
      | none => openOnce pid fs .notFound parent data = .error .nullPointer
      | some entry => ∃ next, openOnce pid fs .notFound parent data =
          .ok (next, { data with
            status := .successful
            fd := (fs.descriptors.map pid fs.vfs.nodeNextID (-1) data.flags.toInt).1 }) ∧
          next.descriptors =
            (fs.descriptors.map pid fs.vfs.nodeNextID (-1) data.flags.toInt).2 ∧
          next.ramdisk = (fs.ramdisk.createChild entry data.path).2 ∧
          next.vfs = (createVfsNode fs.vfs (fs.ramdisk.createChild entry data.path).1 parent).2
    else openOnce pid fs .notFound parent data =
      .ok (fs.withTransactions fs.settled, { data with status := .notFound, fd := -1 }) := by
  rw [openOnce, startOpen_ramdisk hDelegate, openEntry]
  simp only [withTransactions, hNode]
  split
  · cases fs.ramdisk.findById node.physFsID with
    | none => rfl
    | some entry =>
      have hNew : (createVfsNode fs.vfs (fs.ramdisk.createChild entry data.path).1
          parent).2.getNodeById fs.vfs.nodeNextID =
          some ⟨none, .file, fs.vfs.nodeNextID, fs.ramdisk.nextUnusedId, some data.path,
            some parent, []⟩ := by
        rw [getNodeById, createVfsNode,
          get_insert hValid (Option.isSome_of_eq_some hNode), if_pos rfl]
        rfl
      have hId : (createVfsNode fs.vfs (fs.ramdisk.createChild entry data.path).1 parent).1 =
          fs.vfs.nodeNextID := rfl
      simp only [finishOpen, hId, hNew]
      exact ⟨_, rfl, rfl, rfl, rfl⟩
  · rfl

def asked (fs : FileSystem) : FileSystem :=
  fs.withTransactions
    (fs.transactions.nextTransaction.2.setStatus fs.transactions.nextTransactionID .finished)

/-- A handler whose last request found the status given. -/
def waitsAfter (handler : DiscoveryHandler) (fs : FileSystem) (parent : Nat)
    (status : FsDiscoveryStatus) : DiscoveryHandler :=
  { handler with
    lastDiscoveredParent := some parent
    status := status
    waiter := some fs.transactions.nextTransactionID }

def finds (handler : DiscoveryHandler) (node : Nat) (data : SyscallFsOpen) : DiscoveryHandler :=
  { handler with
    status := .successful, node := some node, allNodesDiscovered := true, data := data }

variable {after : Afterwork}

/-- No component of the path is too long for the buffer of a discovery. -/
def NamesFit (path : CString) : Prop := ∀ name ∈ components path, name.length < pathMax

abbrev walked (fs : FileSystem) (handler : DiscoveryHandler) :=
  fs.vfs.walk root (components handler.absolutePath)

theorem findInBuffer_eq (hFits : NamesFit handler.absolutePath) :
    findInBuffer fs.vfs handler.absolutePath = .ok (fs.walked handler) := by
  rw [findInBuffer, findExisting_eq_walk, if_neg]
  simp only [any_eq_true, decide_eq_true_eq, not_exists, not_and]
  intro entry hEntry hLong
  exact absurd hLong (Nat.not_le.mpr (hFits _ (fst_mem_of_mem_zipIdx hEntry)))

theorem startWith_found (hFits : NamesFit handler.absolutePath)
    (hWalk : (fs.walked handler).child = some node) :
    startWith after fs handler = (after fs (finds handler node handler.data)).map
      fun (_, next, handler) => (.immediateFinish, next, handler) := by
  rw [startWith, findInBuffer_eq hFits]
  generalize fs.walked handler = existing at hWalk ⊢
  obtain ⟨parent, child, name⟩ := existing
  cases hWalk
  rfl

theorem startWith_missing {parent : Nat} {node : FsNode} {name : CString}
    (hFits : NamesFit handler.absolutePath) (hWalk : fs.walked handler = ⟨parent, none, name⟩)
    (hDelegate : fs.vfs.getDelegate parent = some .ramdisk)
    (hNode : fs.vfs.getNodeById parent = some node) :
    startWith after fs handler = (entryBelow fs.ramdisk node name).map fun found => (.withWaiter,
      { fs.asked with
        vfs := found.elim fs.vfs fun entry => (createVfsNode fs.vfs entry parent).2 },
      waitsAfter handler fs parent (found.elim .notFound fun _ => .successful)) := by
  simp only [startWith, findInBuffer_eq hFits, hWalk, hDelegate, requestDiscovery, hNode, bind,
    Except.bind]
  cases entryBelow fs.ramdisk node name with
  | error stop => rfl
  | ok found => cases found <;> rfl

/-- A node was discovered, and the next start of the discovery decides how to go on. -/
theorem finishWith_successful {status : StartStatus} {again : DiscoveryHandler}
    (hStart : startWith after fs handler = .ok (status, next, again)) (hFailed : status ≠ .failed)
    (hAll : handler.allNodesDiscovered = false) (hStatus : handler.status = .successful) :
    finishWith after fs handler = if again.allNodesDiscovered then after next again
      else .ok (.repeatWithSameHandler, next, again) := by
  simp only [finishWith, hAll, hStatus, hStart, bind, Except.bind, hFailed]
  cases again.allNodesDiscovered <;> rfl

theorem startTransaction_found (hFits : NamesFit handler.absolutePath)
    (hWalk : (fs.walked handler).child = some node)
    (hDelegate : fs.vfs.getDelegate node = some .ramdisk) :
    startTransaction pid fs handler =
      (openOnce pid fs .successful node handler.data).map fun (next, data) =>
        (.immediateFinish, next, finds handler node data) := by
  rw [startTransaction, startWith_found hFits hWalk,
    afterFinishTransaction_eq (.inl ⟨rfl, rfl⟩) hDelegate]
  dsimp only [finds]
  cases openOnce pid fs .successful node handler.data <;> rfl

/-- What a start of the discovery does, next to the pass over the rest of the
path. The handler has walked over the first components. -/
inductive Started (after : Afterwork) (fs : FileSystem) (handler : DiscoveryHandler) (node : Nat)
    (rest : List CString) : Prop
  | found (target : Nat)
      (hExists : (fs.walked handler).child = some target)
      (hDelegate : fs.vfs.getDelegate target = some .ramdisk)
      (hResolve : resolve fs.ramdisk fs.vfs node rest = (fs.vfs, .found target))
  | missing (parent : Nat)
      (hAbsent : (fs.walked handler).child = none)
      (hSome : (fs.vfs.nodes.get parent).isSome)
      (hDelegate : fs.vfs.getDelegate parent = some .ramdisk)
      (hResolve : resolve fs.ramdisk fs.vfs node rest = (fs.vfs, .missing parent))
      (hRest : rest ≠ [])
      (hStart : startWith after fs handler =
        .ok (.withWaiter, fs.asked, waitsAfter handler fs parent .notFound))
  | crashed
      (hAbsent : (fs.walked handler).child = none)
      (hResolve : resolve fs.ramdisk fs.vfs node rest = (fs.vfs, .crashed))
      (hStart : startWith after fs handler = .error .nullPointer)
  | discovered (vfs : Vfs) (parent target : Nat) (first second : List CString)
      (hAbsent : (fs.walked handler).child = none)
      (hValid : vfs.Valid) (hRoot : (vfs.nodes.get root).isSome)
      (hPath : components handler.absolutePath = first ++ second)
      (hShorter : second.length < rest.length)
      (hWalk : (vfs.walk root first).child = some target)
      (hResolve : resolve fs.ramdisk fs.vfs node rest = resolve fs.ramdisk vfs target second)
      (hStart : startWith after fs handler =
        .ok (.withWaiter, { fs.asked with vfs := vfs }, waitsAfter handler fs parent .successful))

/-- A start of the discovery takes one of the four ways, since the walk over the whole path
stops where the walk over its rest does. -/
theorem start_cases {handler : DiscoveryHandler} {node : Nat} {first rest : List CString}
    (hFits : NamesFit handler.absolutePath)
    (hValid : fs.vfs.Valid) (hRoot : (fs.vfs.nodes.get root).isSome)
    (hPath : components handler.absolutePath = first ++ rest)
    (hWalk : (fs.vfs.walk root first).child = some node)
    (hServed : (resolve fs.ramdisk fs.vfs node rest).2 ≠ .elsewhere) :
    Started after fs handler node rest := by
  have hWhole : fs.walked handler = fs.vfs.walk node rest := by
    rw [walked, hPath, walk_append rest hWalk]
  cases hChild : (fs.vfs.walk node rest).child with
  | some target =>
    have hExists : (fs.walked handler).child = some target := by
      rw [hWhole, hChild]
    have hResolve : resolve fs.ramdisk fs.vfs node rest = resolve fs.ramdisk fs.vfs target [] := by
      have hAll : resolve fs.ramdisk fs.vfs node (rest ++ []) = _ := resolve_append [] hChild
      rwa [append_nil] at hAll
    by_cases hDelegate : fs.vfs.getDelegate target = some .ramdisk
    · rw [resolve, if_pos hDelegate] at hResolve
      exact .found target hExists hDelegate hResolve
    · rw [hResolve, resolve, if_neg hDelegate] at hServed
      exact absurd rfl hServed
  | none =>
    have hAbsent : (fs.walked handler).child = none := by
      rw [hWhole, hChild]
    obtain ⟨before, second, hSplit, hBefore, hStep⟩ := walk_missing hChild
    have hSome : (fs.vfs.nodes.get (fs.vfs.walk node rest).parent).isSome := by
      rw [← hWhole]
      exact (hValid.isSome_walk hRoot _).1
    have hStop : fs.walked handler =
        ⟨(fs.vfs.walk node rest).parent, none, (fs.vfs.walk node rest).nameCurrent⟩ := by
      rw [hWhole, ← hChild]
    generalize (fs.vfs.walk node rest).parent = parent at *
    generalize (fs.vfs.walk node rest).nameCurrent = name at *
    obtain ⟨content, hContent⟩ := Option.isSome_iff_exists.mp hSome
    have hResolve : resolve fs.ramdisk fs.vfs node rest =
        resolve fs.ramdisk fs.vfs parent (name :: second) := by
      rw [hSplit]
      exact resolve_append _ hBefore
    have hGet : fs.vfs.getNodeById parent = some content := hContent
    rw [resolve_missing second hStep, hGet] at hResolve
    by_cases hDelegate : fs.vfs.getDelegate parent = some .ramdisk
    · rw [if_neg (not_not.mpr hDelegate), Option.map_some] at hResolve
      have hStart := @startWith_missing fs handler after _ _ _ hFits hStop hDelegate hGet
      cases hEntry : entryBelow fs.ramdisk content name with
      | error stop =>
        rw [hEntry] at hResolve hStart
        rw [entryBelow_error hEntry] at hStart
        exact .crashed hAbsent hResolve hStart
      | ok entry =>
        rw [hEntry] at hResolve hStart
        cases entry with
        | none =>
          refine .missing parent hAbsent hSome hDelegate hResolve ?_ hStart
          rw [hSplit]
          exact append_ne_nil_of_right_ne_nil _ (cons_ne_nil _ _)
        | some ramdiskNode =>
          have hName := entryBelow_name hEntry
          have hFirst : (fs.vfs.walk root (first ++ before)).child = some parent := by
            rw [walk_append before hWalk]
            exact hBefore
          refine .discovered _ parent fs.vfs.nodeNextID (first ++ before ++ [name]) second
            hAbsent (hValid.insert hSome) (isSome_get_insert hValid hSome hRoot) ?_ ?_
            (walk_createVfsNode hValid hRoot hSome hStep hName hFirst) hResolve hStart
          · rw [hPath, hSplit]
            simp
          · rw [hSplit, length_append, length_cons]
            omega
    · rw [if_pos hDelegate] at hResolve
      rw [hResolve] at hServed
      exact absurd rfl hServed

def openTwice (pid : Pid) (fs : FileSystem) (node : Nat) (data : SyscallFsOpen) :
    Outcome (FileSystem × SyscallFsOpen) :=
  (openOnce pid fs .successful node data).bind fun (fs, data) =>
    openOnce pid fs .successful node data

theorem openOnce_vfs {result : SyscallFsOpen}
    (hDelegate : fs.vfs.getDelegate target = some .ramdisk)
    (h : openOnce pid fs .successful target data = .ok (next, result)) : next.vfs = fs.vfs := by
  cases hNode : fs.vfs.getNodeById target with
  | none =>
    rw [openOnce, startOpen_ramdisk hDelegate, openEntry] at h
    simp only [withTransactions, hNode] at h
    cases h
  | some node =>
    rw [openOnce_found data hDelegate hNode] at h
    split at h
    · cases h
    · split at h
      · cases h
        rfl
      · cases h
        exact mapFile_vfs node data.flags.toInt (-1)

/-- The check of a finished transaction finishes it and forgets it. -/
theorem await_eq {H : Type} {functions : FsTransactionHandler H} {waiter : H → Option Nat}
    {handler : H} {transaction : Nat} (rounds : Nat) (hWaiter : waiter handler = some transaction)
    (hFinished : fs.transactions.getStatus transaction = .finished) :
    awaitTransaction functions waiter (rounds + 1) fs handler =
      (functions.finishTransaction fs handler).bind fun (stat, next, handler) =>
        let next := next.without transaction
        if stat = .done then .ok (1, next, handler)
        else (awaitTransaction functions waiter rounds next handler).map fun (checks, next, handler) =>
          (checks + 1, next, handler) := by
  rw [awaitTransaction, hWaiter]
  simp only [isTransactionWaiting, hFinished]
  cases functions.finishTransaction fs handler with
  | error stop => rfl
  | ok answer =>
    obtain ⟨stat, next, handler⟩ := answer
    cases stat <;> rfl

theorem wait_eq {handler : DiscoveryHandler} {transaction rounds : Nat}
    (hWaiter : handler.waiter = some transaction)
    (hFinished : fs.transactions.getStatus transaction = .finished) :
    waitForTransaction pid (rounds + 1) fs handler =
      match finishTransaction pid fs handler with
      | .error stop => .error stop
      | .ok (.done, next, handler) => .ok (forget transaction (next, handler.data))
      | .ok (_, next, handler) => waitForTransaction pid rounds
          (next.without transaction) handler := by
  rw [waitForTransaction, await_eq rounds hWaiter hFinished]
  change (finishTransaction pid fs handler).bind _ >>= _ = _
  cases finishTransaction pid fs handler with
  | error stop => rfl
  | ok answer =>
    obtain ⟨stat, next, handler⟩ := answer
    cases stat with
    | done => rfl
    | _ =>
      dsimp only [waitForTransaction, Except.bind]
      rw [if_neg (by decide)]
      cases awaitTransaction (discoveryWith (afterFinishTransaction pid)) _ rounds _ handler <;> rfl

theorem wait_missing {handler : DiscoveryHandler} {transaction rounds parent : Nat}
    (hWaiter : handler.waiter = some transaction)
    (hFinished : fs.transactions.getStatus transaction = .finished)
    (hStatus : handler.status = .notFound) (hParent : handler.lastDiscoveredParent = some parent)
    (hDelegate : fs.vfs.getDelegate parent = some .ramdisk) :
    waitForTransaction pid (rounds + 1) fs handler =
      (openOnce pid fs .notFound parent handler.data).map (forget transaction) := by
  rw [wait_eq hWaiter hFinished, finishTransaction, finishWith, if_neg (by rw [hStatus]; simp),
    afterFinishTransaction_eq (.inr ⟨hStatus, hParent⟩) hDelegate, hStatus]
  cases openOnce pid fs .notFound parent handler.data <;> rfl

/-- How a call that waits ends, next to the end of the pass over the path. -/
inductive Waited (pid : Pid) (fs : FileSystem) (data : SyscallFsOpen)
    (result : Outcome (FileSystem × SyscallFsOpen)) : Vfs × Lookup → Prop
  | found (vfs : Vfs) (target transaction : Nat) (transactions : FsTransactionStore)
      (hValid : vfs.Valid) (hDelegate : vfs.getDelegate target = some .ramdisk)
      (hSome : (vfs.nodes.get target).isSome)
      (hResult : result = (openTwice pid { fs with vfs := vfs, transactions := transactions }
        target data).map (forget transaction)) :
      Waited pid fs data result (vfs, .found target)
  | missing (vfs : Vfs) (parent transaction : Nat) (transactions : FsTransactionStore)
      (hValid : vfs.Valid) (hDelegate : vfs.getDelegate parent = some .ramdisk)
      (hSome : (vfs.nodes.get parent).isSome)
      (hResult : result = (openOnce pid { fs with vfs := vfs, transactions := transactions }
        .notFound parent data).map (forget transaction)) :
      Waited pid fs data result (vfs, .missing parent)
  | crashed (vfs : Vfs) (hResult : result = .error .nullPointer) :
      Waited pid fs data result (vfs, .crashed)

theorem finishTransaction_found
    (hAll : handler.allNodesDiscovered = false) (hStatus : handler.status = .successful)
    (hDelegate : fs.vfs.getDelegate target = some .ramdisk)
    (hStart : startTransaction pid fs handler =
      (openOnce pid fs .successful target handler.data).map fun (next, data) =>
        (.immediateFinish, next, finds handler target data)) :
    finishTransaction pid fs handler =
      (openTwice pid fs target handler.data).map fun (next, data) =>
        (.done, next, finds handler target data) := by
  rw [openTwice]
  cases hOpen : openOnce pid fs .successful target handler.data with
  | error stop =>
    rw [hOpen] at hStart
    rw [finishTransaction, finishWith, if_pos ⟨by rw [hAll]; rfl, hStatus⟩]
    exact congrArg (Except.bind · _) hStart
  | ok answer =>
    obtain ⟨next, data⟩ := answer
    rw [hOpen] at hStart
    have hNext : next.vfs.getDelegate target = some .ramdisk := by
      rw [openOnce_vfs hDelegate hOpen]
      exact hDelegate
    rw [finishTransaction, finishWith_successful hStart (by decide) hAll hStatus, finds, if_pos rfl]
    exact afterFinishTransaction_eq (.inl ⟨rfl, rfl⟩) hNext

theorem Waited.of_with {result : Outcome (FileSystem × SyscallFsOpen)}
    {vfs : Vfs} {transactions : FsTransactionStore} {end_ : Vfs × Lookup}
    (h : Waited pid { fs with vfs := vfs, transactions := transactions } data result end_) :
    Waited pid fs data result end_ := by
  cases h with
  | found vfs target transaction transactions hValid hDelegate hSome hResult =>
    exact .found vfs target transaction transactions hValid hDelegate hSome hResult
  | missing vfs parent transaction transactions hValid hDelegate hSome hResult =>
    exact .missing vfs parent transaction transactions hValid hDelegate hSome hResult
  | crashed vfs hResult => exact .crashed vfs hResult

/-- The transaction of the next request is another one, so its status
survives when the check forgets the last one. -/
theorem getStatus_asked {transaction : Nat}
    (hNext : fs.transactions.nextTransactionID = (transaction + 1) % 2 ^ 64) :
    (fs.asked.transactions.removeTransaction transaction).getStatus
      fs.transactions.nextTransactionID = .finished := by
  have hNe : transaction ≠ fs.transactions.nextTransactionID := by omega
  simp [asked, withTransactions, getStatus, setStatus,
    removeTransaction, HashMap.get_erase, hNe]

/-- A thread that waits for the discovery is done after at most one round for
each component that is left, and one for the end. -/
theorem wait_spec {rounds : Nat} {handler : DiscoveryHandler} {node transaction : Nat}
    {first rest : List CString} (hFits : NamesFit handler.absolutePath) (hValid : fs.vfs.Valid)
    (hRoot : (fs.vfs.nodes.get root).isSome)
    (hPath : components handler.absolutePath = first ++ rest)
    (hWalk : (fs.vfs.walk root first).child = some node)
    (hServed : (resolve fs.ramdisk fs.vfs node rest).2 ≠ .elsewhere)
    (hWaiter : handler.waiter = some transaction)
    (hFinished : fs.transactions.getStatus transaction = .finished)
    (hNext : fs.transactions.nextTransactionID = (transaction + 1) % 2 ^ 64)
    (hAll : handler.allNodesDiscovered = false) (hStatus : handler.status = .successful)
    (hRounds : rest.length < rounds) :
    Waited pid fs handler.data (waitForTransaction pid rounds fs handler)
      (resolve fs.ramdisk fs.vfs node rest) := by
  induction rounds generalizing fs handler node transaction first rest with
  | zero => cases hRounds
  | succ rounds ih =>
    have hWait := @wait_eq pid fs handler transaction rounds hWaiter hFinished
    cases @start_cases fs (afterFinishTransaction pid) handler node first rest hFits hValid hRoot
      hPath hWalk hServed with
    | found target hExists hDelegate hResolve =>
      rw [hResolve]
      rw [finishTransaction_found hAll hStatus hDelegate
        (startTransaction_found hFits hExists hDelegate)] at hWait
      refine .found fs.vfs target transaction fs.transactions hValid hDelegate
        ((hValid.isSome_walk hRoot _).2 target hExists) (hWait.trans ?_)
      cases openTwice pid fs target handler.data <;> rfl
    | missing parent hAbsent hSome hDelegate hResolve hRest hStart =>
      rw [hResolve]
      rw [finishTransaction, finishWith_successful hStart (by decide) hAll hStatus, waitsAfter,
        if_neg (ne_true_of_eq_false hAll)] at hWait
      obtain ⟨more, rfl⟩ : ∃ more, rounds = more + 1 := by
        have hPos := length_pos_of_ne_nil hRest
        exact ⟨rounds - 1, by omega⟩
      exact .missing fs.vfs parent _ (fs.asked.transactions.removeTransaction transaction) hValid
        hDelegate hSome (hWait.trans (wait_missing rfl (getStatus_asked hNext) rfl rfl hDelegate))
    | crashed hAbsent hResolve hStart =>
      rw [hResolve]
      refine .crashed fs.vfs (hWait.trans ?_)
      rw [finishTransaction, finishWith, if_pos ⟨by rw [hAll]; rfl, hStatus⟩, hStart]
      rfl
    | discovered vfs parent target before second hAbsent hVfs hVfsRoot hSplit hShorter hTarget
        hResolve hStart =>
        rw [finishTransaction, finishWith_successful hStart (by decide) hAll hStatus, waitsAfter,
        if_neg (ne_true_of_eq_false hAll)] at hWait
        have hRest : (resolve fs.ramdisk vfs target second).2 ≠ .elsewhere := by
          rw [← hResolve]
          exact hServed
        have hEnds := @ih { fs with
            vfs := vfs
            transactions := fs.asked.transactions.removeTransaction transaction }
          (waitsAfter handler fs parent .successful) target fs.transactions.nextTransactionID
          before second hFits hVfs hVfsRoot hSplit hTarget hRest rfl (getStatus_asked hNext) rfl hAll
          rfl (by omega)
        rw [hResolve, hWait]
        exact hEnds.of_with

theorem getStatus_asked_self :
    fs.asked.transactions.getStatus fs.transactions.nextTransactionID = .finished :=
  getStatus_setStatus _ _ _

/-- A call opens an existing node once. If a component of the path is not
there yet, the call ends as the pass over the path does. -/
theorem fsOpen_cases {workingDirectory : CString} {data : SyscallFsOpen} {path : CString}
    (hTarget : concatAsAbsolutePath workingDirectory data.path = path)
    (hFits : path.length < pathMax) (hValid : fs.vfs.Valid)
    (hRoot : (fs.vfs.nodes.get root).isSome)
    (hServed : (resolve fs.ramdisk fs.vfs root (components path)).2 ≠ .elsewhere) :
    (∃ target, (fs.vfs.walk root (components path)).child = some target ∧
      fs.vfs.getDelegate target = some .ramdisk ∧
      resolve fs.ramdisk fs.vfs root (components path) = (fs.vfs, .found target) ∧
      fsOpen fs pid workingDirectory data = openOnce pid fs .successful target data) ∨
    ((fs.vfs.walk root (components path)).child = none ∧
      Waited pid fs data (fsOpen fs pid workingDirectory data)
        (resolve fs.ramdisk fs.vfs root (components path))) := by
  have hLength := length_components_le path
  rw [fsOpen, hTarget, if_neg (Nat.not_le.mpr hFits), startTransaction]
  have hNames : NamesFit path := fun _ hName => (length_le_of_mem_components hName).trans_lt hFits
  have hCases := @start_cases fs (afterFinishTransaction pid) (.new path data) root []
    (components path) hNames hValid hRoot rfl rfl hServed
  cases hCases with
  | found target hExists hDelegate hResolve =>
    refine .inl ⟨target, hExists, hDelegate, hResolve, ?_⟩
    have hStart := @startTransaction_found pid fs (.new path data) target hNames hExists hDelegate
    have hData : (DiscoveryHandler.new path data).data = data := rfl
    rw [startTransaction, hData] at hStart
    rw [hStart]
    cases openOnce pid fs .successful target data <;> rfl
  | missing parent hAbsent hSome hDelegate hResolve hRest hStart =>
    refine .inr ⟨hAbsent, ?_⟩
    rw [hResolve, hStart]
    have hWait := @wait_missing pid fs.asked (waitsAfter (.new path data) fs parent .notFound) _
      path.length parent rfl getStatus_asked_self rfl rfl hDelegate
    exact .missing fs.vfs parent _ fs.asked.transactions hValid hDelegate hSome hWait
  | crashed hAbsent hResolve hStart =>
    refine .inr ⟨hAbsent, ?_⟩
    rw [hResolve, hStart]
    exact .crashed fs.vfs rfl
  | discovered vfs parent target before second hAbsent hVfs hVfsRoot hSplit hShorter hWalk
      hResolve hStart =>
      refine .inr ⟨hAbsent, ?_⟩
      have hRest : (resolve fs.ramdisk vfs target second).2 ≠ .elsewhere := by
        rw [← hResolve]
        exact hServed
      rw [hResolve, hStart]
      have hEnds := @wait_spec pid { fs with vfs := vfs, transactions := fs.asked.transactions }
        (path.length + 1) (waitsAfter (.new path data) fs parent .successful) target
        fs.transactions.nextTransactionID before second hNames hVfs hVfsRoot hSplit hWalk hRest rfl
        getStatus_asked_self rfl rfl rfl (by omega)
      exact hEnds.of_with

end Opens

end Kernel.FileSystem
