import MeetiX.Kernel.FileSystem.CreateFile

/-! The discovery of a path without the work of the handler that derives from it. It ends where
the pass over the path does, as far as the ramdisk has the components. -/
namespace Kernel.FileSystem

open Option

/-- A discovery from its start to its end. Each check of the waiter is there for one request to
the delegate, and their number is returned. -/
def discover (rounds : Nat) (fs : FileSystem) (handler : DiscoveryHandler) :
    Outcome (Nat × FileSystem × DiscoveryHandler) := do
  let (status, fs, handler) ← startWith nothingAfter fs handler
  if status = .withWaiter then
    awaitTransaction (discoveryWith nothingAfter) DiscoveryHandler.waiter rounds fs handler
  else .ok (0, fs, handler)

/-- A handler that has come to the node of its path. If the path does not exist on the
ramdisk, it has come to the node of the last entry that does. -/
def DiscoveredAs (ramdisk : Ramdisk) (names : List CString) (vfs : Vfs)
    (handler : DiscoveryHandler) : Prop :=
  match ramdisk.lookup ramdisk.root names with
  | some entry => handler.status = .successful ∧ ∃ id node, handler.node = some id ∧
      (vfs.walk Vfs.root names).child = some id ∧ vfs.nodes.get id = some node ∧
      node.physFsID = entry.id
  | none => handler.status = .notFound ∧ ∃ before name after folder id node,
      names = before ++ name :: after ∧ ramdisk.lookup ramdisk.root before = some folder ∧
      ramdisk.childOf folder.id name = none ∧ handler.lastDiscoveredParent = some id ∧
      (vfs.walk Vfs.root before).child = some id ∧ vfs.nodes.get id = some node ∧
      node.physFsID = folder.id

/-- What a handler has found when the pass over its path ends. -/
def EndsAs (vfs : Vfs) (handler : DiscoveryHandler) : Vfs × Lookup → Prop
  | (last, .found target) =>
    vfs = last ∧ handler.status = .successful ∧ handler.node = some target
  | (last, .missing parent) =>
    vfs = last ∧ handler.status = .notFound ∧ handler.lastDiscoveredParent = some parent
  | _ => False

section Ends

variable {fs : FileSystem} {handler : DiscoveryHandler} {first rest : List CString} {node : Nat}

/-- A handler that was told that there is no such entry needs no other request. -/
theorem await_missing {transaction rounds : Nat} (hWaiter : handler.waiter = some transaction)
    (hFinished : fs.transactions.getStatus transaction = .finished)
    (hStatus : handler.status = .notFound) :
    awaitTransaction (discoveryWith nothingAfter) DiscoveryHandler.waiter (rounds + 1) fs handler =
      .ok (1, fs.without transaction, handler) := by
  rw [await_eq rounds hWaiter hFinished, discoveryWith]
  dsimp only
  rw [finishWith, if_neg (by rw [hStatus]; simp)]
  rfl

variable (hFits : NamesFit handler.absolutePath) (hValid : fs.vfs.Valid)
  (hRoot : (fs.vfs.nodes.get Vfs.root).isSome)
  (hPath : components handler.absolutePath = first ++ rest)
  (hWalk : (fs.vfs.walk Vfs.root first).child = some node)
  (hServed : (resolve fs.ramdisk fs.vfs node rest).2 ≠ .elsewhere)
  (hAlive : (resolve fs.ramdisk fs.vfs node rest).2 ≠ .crashed)

include hFits hValid hRoot hPath hWalk hServed hAlive

/-- A handler that waits for a node it was given ends after at most one request for each
component that is left, next to the one it waits for. -/
theorem await_ends {transaction rounds : Nat} (hWaiter : handler.waiter = some transaction)
    (hFinished : fs.transactions.getStatus transaction = .finished)
    (hNext : fs.transactions.nextTransactionID = (transaction + 1) % 2 ^ 64)
    (hAll : handler.allNodesDiscovered = false) (hStatus : handler.status = .successful)
    (hRounds : rest.length < rounds) :
    ∃ count last ended, awaitTransaction (discoveryWith nothingAfter) DiscoveryHandler.waiter rounds
        fs handler = .ok (count, last, ended) ∧ count ≤ rest.length + 1 ∧
      EndsAs last.vfs ended (resolve fs.ramdisk fs.vfs node rest) := by
  induction rounds generalizing fs handler node transaction first rest with
  | zero => cases hRounds
  | succ rounds ih =>
    rw [await_eq rounds hWaiter hFinished]
    change ∃ count last ended, (finishWith nothingAfter fs handler).bind _ = _ ∧ _
    cases @start_cases fs nothingAfter handler node first rest hFits hValid hRoot hPath hWalk
      hServed with
    | found target hExists hDelegate hResolve =>
      rw [finishWith_successful (startWith_found hFits hExists) (by decide) hAll hStatus, hResolve]
      exact ⟨1, _, _, rfl, Nat.le_add_left 1 _, rfl, rfl, rfl⟩
    | missing parent hAbsent hSome hDelegate hResolve hRest hStart =>
      rw [finishWith_successful hStart (by decide) hAll hStatus, waitsAfter,
        if_neg (ne_true_of_eq_false hAll), hResolve]
      obtain ⟨more, rfl⟩ : ∃ more, rounds = more + 1 := by
        have hPos := List.length_pos_of_ne_nil hRest
        exact ⟨rounds - 1, by omega⟩
      have hLast := @await_missing (fs.asked.without transaction)
        (waitsAfter handler fs parent .notFound) _ more rfl (getStatus_asked hNext) rfl
      have hPos := List.length_pos_of_ne_nil hRest
      exact ⟨2, _, _, congrArg (Except.map _) hLast, by omega, rfl, rfl, rfl⟩
    | crashed hAbsent hResolve hStart =>
      rw [hResolve] at hAlive
      exact absurd rfl hAlive
    | discovered vfs parent target before second hAbsent hVfs hVfsRoot hSplit hShorter hTarget
        hResolve hStart =>
      rw [finishWith_successful hStart (by decide) hAll hStatus, waitsAfter,
        if_neg (ne_true_of_eq_false hAll), hResolve]
      rw [hResolve] at hServed hAlive
      obtain ⟨count, last, ended, hCount, hLe, hEnds⟩ := @ih { fs with
          vfs := vfs
          transactions := fs.asked.transactions.removeTransaction transaction }
        (waitsAfter handler fs parent .successful) before second target hFits hVfs hVfsRoot hSplit
        hTarget hServed hAlive _ rfl (getStatus_asked hNext) rfl hAll rfl (by omega)
      exact ⟨count + 1, last, ended, congrArg (Except.map _) hCount, by omega, hEnds⟩

/-- So does a handler that starts. -/
theorem discover_ends (hAll : handler.allNodesDiscovered = false) :
    ∃ count last ended, discover rest.length fs handler = .ok (count, last, ended) ∧
      count ≤ rest.length ∧ EndsAs last.vfs ended (resolve fs.ramdisk fs.vfs node rest) := by
  cases @start_cases fs nothingAfter handler node first rest hFits hValid hRoot hPath hWalk
    hServed with
  | found target hExists hDelegate hResolve =>
    rw [discover, startWith_found hFits hExists, hResolve]
    exact ⟨0, _, _, rfl, Nat.zero_le _, rfl, rfl, rfl⟩
  | missing parent hAbsent hSome hDelegate hResolve hRest hStart =>
    rw [discover, hStart, hResolve]
    obtain ⟨more, hMore⟩ := Nat.exists_eq_succ_of_ne_zero (mt List.length_eq_zero_iff.mp hRest)
    rw [hMore]
    have hLast := @await_missing fs.asked (waitsAfter handler fs parent .notFound) _ more rfl
      getStatus_asked_self rfl
    exact ⟨1, _, _, hLast, Nat.le_add_left 1 _, rfl, rfl, rfl⟩
  | crashed hAbsent hResolve hStart =>
    rw [hResolve] at hAlive
    exact absurd rfl hAlive
  | discovered vfs parent target before second hAbsent hVfs hVfsRoot hSplit hShorter hTarget
      hResolve hStart =>
    rw [discover, hStart, hResolve]
    rw [hResolve] at hServed hAlive
    obtain ⟨count, last, ended, hCount, hLe, hEnds⟩ := @await_ends
      { fs with vfs := vfs, transactions := fs.asked.transactions }
      (waitsAfter handler fs parent .successful) before second target hFits hVfs hVfsRoot hSplit
      hTarget hServed hAlive _ rest.length rfl getStatus_asked_self rfl hAll rfl hShorter
    exact ⟨count, last, ended, hCount, by omega, hEnds⟩

end Ends

section Mirrored

variable {fs : FileSystem}

/-- A path that is not on the ramdisk leaves it at some component. -/
theorem lookup_eq_none {ramdisk : Ramdisk} {top : RamdiskEntry} {names : List CString}
    (h : ramdisk.lookup top names = none) :
    ∃ before name after folder, names = before ++ name :: after ∧
      ramdisk.lookup top before = some folder ∧ ramdisk.childOf folder.id name = none := by
  induction names generalizing top with
  | nil => cases h
  | cons name rest ih =>
    cases hChild : ramdisk.childOf top.id name with
    | none => exact ⟨[], name, rest, top, rfl, rfl, hChild⟩
    | some child =>
      rw [Ramdisk.lookup, hChild] at h
      obtain ⟨before, last, after, folder, rfl, hBefore, hLast⟩ := ih h
      refine ⟨name :: before, last, after, folder, rfl, ?_, hLast⟩
      rw [Ramdisk.lookup, hChild]
      exact hBefore

/-- From nodes that mirror a ramdisk the pass over ordinary components ends at the node of the
path, or at the node of the last entry that exists. -/
theorem resolve_of_mirrors (hNumbered : WellNumbered fs.ramdisk)
    (hHeaders : fs.ramdisk.headers ≠ []) (hMirrors : Mirrors fs.ramdisk fs.vfs)
    {names : List CString} (hPlain : ∀ name ∈ names, name ≠ [dot] ∧ name ≠ [dot, dot])
    (hMount : names.head? ≠ some Vfs.mountName) :
    ∃ vfs end_, resolve fs.ramdisk fs.vfs Vfs.root names = (vfs, end_) ∧ end_ ≠ .elsewhere ∧
      end_ ≠ .crashed ∧ ∀ handler, EndsAs vfs handler (vfs, end_) →
        DiscoveredAs fs.ramdisk names vfs handler := by
  obtain ⟨root, hRoot, hDelegate, hId⟩ := hMirrors.root
  have hServed : fs.vfs.getDelegate Vfs.root = some .ramdisk := by
    rw [hMirrors.valid.getDelegate_eq hRoot, hDelegate]
    rfl
  have hTop := hId.trans hNumbered.root.symm
  cases hLookup : fs.ramdisk.lookup fs.ramdisk.root names with
  | some entry =>
    obtain ⟨vfs, last, content, -, hGet, hLast, hEntry, hResolve, hWalk, -⟩ :=
      hMirrors.resolve_lookup hNumbered hRoot hServed hTop hPlain (fun _ => hMount) hLookup
    have hEnd := hResolve []
    rw [List.append_nil, resolve, if_pos hLast] at hEnd
    refine ⟨vfs, _, hEnd, by simp, by simp, ?_⟩
    rintro handler ⟨-, hStatus, hFound⟩
    rw [DiscoveredAs, hLookup]
    exact ⟨hStatus, last, content, hFound, hWalk, hGet, hEntry⟩
  | none =>
    obtain ⟨before, name, after, folder, rfl, hBefore, hAbsent⟩ := lookup_eq_none hLookup
    have hHead : before.head? ≠ some Vfs.mountName := by
      cases before with
      | nil => simp
      | cons first rest => exact hMount
    obtain ⟨vfs, last, content, hNodes, hGet, hLast, hFolder, hResolve, hWalk, hBack, -⟩ :=
      hMirrors.resolve_lookup hNumbered hRoot hServed hTop
        (fun other hOther => hPlain other (List.mem_append_left _ hOther)) (fun _ => hHead) hBefore
    have hFind : vfs.findChild last name = none := by
      refine Option.eq_none_iff_forall_ne_some.mpr fun c hFind => ?_
      have hNotMount : last = Vfs.root → name ≠ Vfs.mountName := by
        rintro hLastRoot rfl
        rw [(hBack hLastRoot).2] at hMount
        exact hMount rfl
      obtain ⟨-, entry, -, -, -, hFound, -⟩ := hNodes.of_findChild hGet hLast hNotMount hFind
      rw [hFolder, hAbsent] at hFound
      cases hFound
    obtain ⟨hDot, hUp⟩ := hPlain name (by simp)
    have hNodeById : vfs.getNodeById last = some content := hGet
    have hEnd := hResolve (name :: after)
    rw [resolve_missing _ (Vfs.step_eq_none.mpr ⟨hUp, hDot, hFind⟩), if_neg (not_not.mpr hLast), hNodeById, map_some,
      hNodes.entryBelow_eq hNumbered hGet hLast, if_neg hHeaders, hFolder, hAbsent] at hEnd
    refine ⟨vfs, _, hEnd, by simp, by simp, ?_⟩
    rintro handler ⟨-, hStatus, hFound⟩
    rw [DiscoveredAs, hLookup]
    exact ⟨hStatus, before, name, after, folder, last, content, rfl, hBefore, hAbsent, hFound,
      hWalk, hGet, hFolder⟩

/-- From any nodes that were discovered from a ramdisk with entries, the discovery of a path of
ordinary components that fit its buffer ends after at most as many requests as there are
components: at the node of the path if every component is on the ramdisk under the one before it,
and otherwise without success, with the node of the last entry that exists as the last parent. -/
theorem discovery_ends {path : CString} (hNumbered : WellNumbered fs.ramdisk)
    (hHeaders : fs.ramdisk.headers ≠ []) (hMirrors : Mirrors fs.ramdisk fs.vfs)
    (hPlain : ∀ name ∈ components path, name ≠ [dot] ∧ name ≠ [dot, dot])
    (hMount : (components path).head? ≠ some Vfs.mountName)
    (hFits : ∀ name ∈ components path, name.length < pathMax) (data : SyscallFsOpen) :
    ∃ count next handler, discover (components path).length fs (.new path data) =
        .ok (count, next, handler) ∧ count ≤ (components path).length ∧
      DiscoveredAs fs.ramdisk (components path) next.vfs handler := by
  obtain ⟨vfs, end_, hResolve, hServed, hAlive, hAs⟩ :=
    resolve_of_mirrors hNumbered hHeaders hMirrors hPlain hMount
  obtain ⟨count, last, ended, hDiscover, hLe, hEnds⟩ := @discover_ends fs (.new path data) []
    (components path) Vfs.root hFits hMirrors.valid hMirrors.isSome_root rfl rfl
    (by rwa [hResolve]) (by rwa [hResolve]) rfl
  rw [hResolve] at hEnds
  obtain rfl : last.vfs = vfs := by
    cases end_ <;> first | exact hEnds.1 | exact hEnds.elim
  exact ⟨count, last, ended, hDiscover, hLe, hAs ended hEnds⟩

end Mirrored

/-- A ramdisk with a folder `a` that is empty. -/
def oneFolder : Ramdisk := ⟨Ramdisk.rootEntry, [⟨.folder, 1, 0, [97], 0, none, true, 0⟩], 2⟩

/-- The discovery of `/a/b`. -/
theorem discovery_ends_missing : ∃ count next handler, discover 2 (initial oneFolder)
        (.new [slash, 97, slash, 98] ⟨[], 0, -1, .error⟩) = .ok (count, next, handler) ∧
      count ≤ 2 ∧ DiscoveredAs oneFolder [[97], [98]] next.vfs handler :=
  @discovery_ends (initial oneFolder) [slash, 97, slash, 98] ⟨rfl, by decide⟩
    (List.cons_ne_nil _ _) (initial_mirrors ⟨rfl, rfl, by decide, by decide, by decide⟩) (by decide)
    (by decide) (by decide) _

/-- A component of 4096 bytes is written with its null behind the buffer of the names. -/
theorem discovery_writes_behind_buffer :
    discover 1 (initial oneFolder) (.new (slash :: List.replicate pathMax 98) ⟨[], 0, -1, .error⟩) =
      .error .bufferOverflow := by
  have hComponents : components (slash :: List.replicate pathMax 98) =
      [List.replicate pathMax 98] := by
    rw [components_slash]
    exact Ramdisk.components_of_not_mem (by simp [slash]) (List.cons_ne_nil _ _)
  simp [discover, startWith, findInBuffer, DiscoveryHandler.new, hComponents, Vfs.findExistingFrom, bind,
    Except.bind]

end Kernel.FileSystem
