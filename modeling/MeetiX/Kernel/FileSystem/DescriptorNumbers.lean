import MeetiX.Kernel.FileSystem.ProcessDescriptors

/-! The numbers of new descriptors. They come from a counter of the process, and
nothing moves the counter when a descriptor with a given number is made. -/
namespace Kernel.FileDescriptors

/-- The counters stay, and nothing is added to the tables. -/
structure Shrinks (store next : FileDescriptors) : Prop where
  counter : ∀ pid, next.nextFileDescriptor pid = store.nextFileDescriptor pid
  pointer : ∀ pid fd, store.pointer pid fd = none → next.pointer pid fd = none
  nextContent : next.nextContent = store.nextContent
  ids : ∀ address content, next.contents address = some content →
    ∃ old, store.contents address = some old ∧ old.id = content.id

namespace Shrinks

variable {store middle next : FileDescriptors}

theorem refl (store : FileDescriptors) : Shrinks store store :=
  ⟨fun _ => rfl, fun _ _ h => h, rfl, fun _ content h => ⟨content, h, rfl⟩⟩

theorem trans (first : Shrinks store middle) (second : Shrinks middle next) : Shrinks store next where
  counter pid := (second.counter pid).trans (first.counter pid)
  pointer pid fd h := second.pointer pid fd (first.pointer pid fd h)
  nextContent := second.nextContent.trans first.nextContent
  ids address content h := by
    obtain ⟨between, hBetween, hId⟩ := second.ids address content h
    obtain ⟨old, hOld, hOldId⟩ := first.ids address between hBetween
    exact ⟨old, hOld, hOldId.trans hId⟩

end Shrinks

section Counter

variable (store : FileDescriptors) (pid other : Pid)

theorem nextFileDescriptor_eq : store.nextFileDescriptor other =
    ((store.processDescriptorTableMap.get other).map fun table => table.nextFileDescriptor).getD 3 := by
  unfold nextFileDescriptor getProcessTable
  cases store.processDescriptorTableMap.get other <;> rfl

theorem nextFileDescriptor_of_tables {store next : FileDescriptors}
    (h : next.processDescriptorTableMap = store.processDescriptorTableMap) (other : Pid) :
    next.nextFileDescriptor other = store.nextFileDescriptor other := by
  rw [nextFileDescriptor_eq, nextFileDescriptor_eq, h]

theorem nextFileDescriptor_getProcessTable :
    (store.getProcessTable pid).2.nextFileDescriptor other = store.nextFileDescriptor other := by
  rw [nextFileDescriptor_eq, nextFileDescriptor_eq, getProcessTable]
  split
  · rfl
  · rename_i hTable
    by_cases h : pid = other
    · subst h
      rw [HashMap.get_add_self, hTable]
      rfl
    · rw [HashMap.get_add_of_ne _ _ h]

theorem nextFileDescriptor_setTable (table : FileDescriptorTable) :
    (store.setTable pid table).nextFileDescriptor other =
      if pid = other then table.nextFileDescriptor else store.nextFileDescriptor other := by
  rw [nextFileDescriptor_eq, nextFileDescriptor_eq, setTable, HashMap.get_assign]
  split <;> rfl

theorem nextFileDescriptor_map_eq (nodeID : Nat) (fd : Fd) (openFlags : Int) :
    (store.map pid nodeID fd openFlags).2.nextFileDescriptor other =
      if pid = other ∧ fd = -1 then Int.bmod (store.nextFileDescriptor pid + 1) wordSize
      else store.nextFileDescriptor other := by
  have hTable : (store.map pid nodeID fd openFlags).2.processDescriptorTableMap =
      ((store.getProcessTable pid).2.setTable pid
        ⟨if fd = -1 then Int.bmod ((store.getProcessTable pid).1.nextFileDescriptor + 1) wordSize
          else (store.getProcessTable pid).1.nextFileDescriptor,
          (store.getProcessTable pid).1.descriptors.add (store.map pid nodeID fd openFlags).1
            (store.getProcessTable pid).2.nextContent⟩).processDescriptorTableMap := rfl
  rw [nextFileDescriptor_of_tables hTable, nextFileDescriptor_setTable,
    nextFileDescriptor_getProcessTable]
  by_cases hPid : pid = other
  · subst hPid
    by_cases hFd : fd = -1
    · simp [nextFileDescriptor]
    · simp [nextFileDescriptor]
  · simp [hPid]

theorem shrinks_getProcessTable : Shrinks store (store.getProcessTable pid).2 where
  counter := nextFileDescriptor_getProcessTable store pid
  pointer other fd h := by rwa [pointer_getProcessTable]
  nextContent := nextContent_getProcessTable store pid
  ids address content h := by
    rw [contents_getProcessTable] at h
    exact ⟨content, h, rfl⟩

end Counter

section Shrink

variable {store next : FileDescriptors}

theorem shrinks_unmap (h : store.Valid) {pid : Pid} {fd : Fd} (hUnmap : store.unmap pid fd = some next) :
    Shrinks store next := by
  obtain ⟨next', hNext, -, hCounter, hPointers, hContents⟩ := unmap_spec h pid fd
  obtain rfl : next' = next := Option.some.inj (hNext.symm.trans hUnmap)
  refine ⟨fun other => ?_, fun other otherFd hNone => ?_, hCounter, fun address content hContent => ?_⟩
  · rw [unmap] at hUnmap
    dsimp only at hUnmap
    split at hUnmap
    · cases hUnmap
      exact nextFileDescriptor_getProcessTable store pid other
    · split at hUnmap
      · cases hUnmap
      · cases hUnmap
        rename_i entry _ content _
        have hSet := nextFileDescriptor_setTable (store.getProcessTable pid).2 pid other
          { (store.getProcessTable pid).1 with
            descriptors := (store.getProcessTable pid).1.descriptors.erase content.id }
        rw [nextFileDescriptor_getProcessTable] at hSet
        refine Eq.trans ?_ (hSet.trans ?_)
        · apply nextFileDescriptor_of_tables
          rfl
        · split
          · rename_i hPid
            rw [← hPid]
            rfl
          · rfl
  · rw [hPointers]
    split
    · rfl
    · exact hNone
  · rw [hContents] at hContent
    split at hContent
    · cases hContent
    · exact ⟨content, hContent, rfl⟩

theorem shrinks_modifyContent {address : Nat} {change : FileDescriptorContent → FileDescriptorContent}
    (hId : ∀ content, (change content).id = content.id)
    (hModify : store.modifyContent address change = some next) : Shrinks store next := by
  unfold modifyContent at hModify
  split at hModify
  · cases hModify
  · rename_i old hOld
    cases hModify
    refine ⟨fun other => ?_, fun _ _ hNone => hNone, rfl, fun other content hContent => ?_⟩
    · apply nextFileDescriptor_of_tables
      rfl
    · dsimp only at hContent
      by_cases hOther : other = address
      · subst hOther
        rw [Function.update_self] at hContent
        cases hContent
        exact ⟨old, hOld, (hId old).symm⟩
      · rw [Function.update_of_ne hOther] at hContent
        exact ⟨content, hContent, rfl⟩

end Shrink

/-- The counter of a process is above all the numbers that it uses. -/
structure Numbered (store : FileDescriptors) : Prop where
  low : ∀ pid, 3 ≤ store.nextFileDescriptor pid
  high : ∀ pid, store.nextFileDescriptor pid < 2 ^ 31
  below : ∀ pid fd, store.pointer pid fd ≠ none → fd < store.nextFileDescriptor pid
  real : ∀ pid fd, store.pointer pid fd ≠ none → fd ≠ -1

namespace Numbered

variable {store next : FileDescriptors}

theorem shrinks (h : Numbered store) (hShrinks : Shrinks store next) : Numbered next where
  low pid := by
    rw [hShrinks.counter]
    exact h.low pid
  high pid := by
    rw [hShrinks.counter]
    exact h.high pid
  below pid fd hPointer := by
    rw [hShrinks.counter]
    exact h.below pid fd fun hNone => hPointer (hShrinks.pointer pid fd hNone)
  real pid fd hPointer := h.real pid fd fun hNone => hPointer (hShrinks.pointer pid fd hNone)

/-- A given number below the counter does no harm, and neither does the counter
itself as long as it can be increased. -/
theorem map (h : Numbered store) {pid : Pid} {nodeID : Nat} {fd : Fd} {openFlags : Int}
    (hFd : if fd = -1 then store.nextFileDescriptor pid < 2 ^ 31 - 1
      else fd < store.nextFileDescriptor pid) :
    Numbered (store.map pid nodeID fd openFlags).2 := by
  have hCounter := fun other => nextFileDescriptor_map_eq store pid other nodeID fd openFlags
  have hNext : fd = -1 → Int.bmod (store.nextFileDescriptor pid + 1) wordSize =
      store.nextFileDescriptor pid + 1 := by
    intro hAuto
    have hLow := h.low pid
    exact Int.bmod_eq_of_le_mul_two (by unfold wordSize; lia) (by unfold wordSize; lia)
  have hGrows : ∀ other, store.nextFileDescriptor other ≤
      (store.map pid nodeID fd openFlags).2.nextFileDescriptor other := by
    intro other
    rw [hCounter]
    split
    · lia
    · exact le_refl _
  refine ⟨fun other => le_trans (h.low other) (hGrows other), fun other => ?_, fun other otherFd hOther => ?_,
    fun other otherFd hOther => ?_⟩
  · rw [hCounter]
    split
    · lia
    · exact h.high other
  · rw [pointer_map] at hOther
    split at hOther
    · rename_i hNew
      obtain ⟨rfl, rfl⟩ := hNew
      rw [map_fst, hCounter]
      by_cases hAuto : fd = -1
      · lia
      · rw [if_neg hAuto, if_neg fun hBoth => hAuto hBoth.2]
        rwa [if_neg hAuto] at hFd
    · exact lt_of_lt_of_le (h.below other otherFd hOther) (hGrows other)
  · rw [pointer_map] at hOther
    split at hOther
    · rename_i hNew
      obtain ⟨rfl, rfl⟩ := hNew
      rw [map_fst]
      have hLow := h.low pid
      split
      · lia
      · assumption
    · exact h.real other otherFd hOther

theorem unmapAll (h : Numbered store) (pid : Pid) : Numbered (store.unmapAll pid) := by
  have hCounter : ∀ other, (store.unmapAll pid).nextFileDescriptor other =
      if pid = other then 3 else store.nextFileDescriptor other := by
    intro other
    rw [nextFileDescriptor_eq, FileDescriptors.unmapAll, HashMap.get_erase]
    split
    · rfl
    · rw [← nextFileDescriptor_getProcessTable store pid other, nextFileDescriptor_eq]
  refine ⟨fun other => ?_, fun other => ?_, fun other fd hOther => ?_, fun other fd hOther => ?_⟩
  · rw [hCounter]
    split
    · exact le_refl _
    · exact h.low other
  · rw [hCounter]
    split
    · norm_num
    · exact h.high other
  · rw [pointer_unmapAll] at hOther
    rw [hCounter]
    split at hOther
    · exact absurd rfl hOther
    · rename_i hPid
      rw [if_neg hPid]
      exact h.below other fd hOther
  · rw [pointer_unmapAll] at hOther
    split at hOther
    · exact absurd rfl hOther
    · exact h.real other fd hOther

theorem initial : Numbered initial where
  low _ := le_refl _
  high _ := by
    change (3 : Int) < 2 ^ 31
    norm_num
  below _ _ h := absurd rfl h
  real _ _ h := absurd rfl h

end Numbered

end Kernel.FileDescriptors

namespace Kernel.FileSystem

open Base FileDescriptors

section Calls

variable {fs next : FileSystem}
variable {targetFd r : Fd} {targetPid sourcePid : Pid} {node : FsNode} {source : Nat}
variable {status : FsClonefdStatus}

theorem mapFile_descriptors (node : FsNode) (pid : Pid) (openFlags : Int) (fd : Fd) :
    (fs.mapFile pid node openFlags fd).2.descriptors = fs.descriptors ∨
      (fs.mapFile pid node openFlags fd).2.descriptors =
        (fs.descriptors.map pid node.id fd openFlags).2 := by
  cases hNode : node.openable with
  | false =>
    rw [mapFile_of_not_openable hNode]
    exact .inl rfl
  | true => exact .inr (mapFile_of_openable hNode pid openFlags fd).2.1

theorem unmapFile_shrinks (h : fs.Valid) {pid : Pid} {content : Nat} {closed : Bool}
    (hUnmap : fs.unmapFile pid node content = some (closed, next)) :
    Shrinks fs.descriptors next.descriptors := by
  rcases (unmapFile_cases h hUnmap).2 with rfl | ⟨fd, hDescriptors⟩
  · exact Shrinks.refl _
  · exact shrinks_unmap h.descriptors hDescriptors

theorem touch_shrinks (fs : FileSystem) (pid : Pid) :
    Shrinks fs.descriptors (fs.touch pid).descriptors :=
  shrinks_getProcessTable fs.descriptors pid

theorem closeTarget_shrinks (h : fs.Valid)
    (hClose : fs.closeTarget sourcePid targetFd targetPid = some next) :
    Shrinks fs.descriptors next.descriptors := by
  unfold closeTarget at hClose
  split at hClose
  · cases hClose
    exact Shrinks.refl _
  · split at hClose
    · cases hClose
    · rename_i touched hFind
      cases hClose
      rw [nodeForDescriptor_state hFind]
      exact touch_shrinks fs targetPid
    · rename_i node content touched hFind
      obtain rfl := nodeForDescriptor_state hFind
      obtain ⟨⟨closed, unmapped⟩, hUnmap, rfl⟩ := Option.map_eq_some_iff.mp hClose
      exact (touch_shrinks fs targetPid).trans (unmapFile_shrinks (h.touch targetPid) hUnmap)

theorem cloneInto_shrinks {target : Nat} (hClone : fs.cloneInto source target = some next) :
    Shrinks fs.descriptors next.descriptors := by
  unfold cloneInto at hClone
  split at hClone
  · cases hClone
  · rename_i content hContent
    obtain ⟨descriptors, hModify, rfl⟩ := Option.map_eq_some_iff.mp hClone
    have hId : ∀ other, (content.cloneInto other).id = other.id := fun _ => rfl
    exact shrinks_modifyContent hId hModify

/-- What a call of `clonefd` does to the tables. -/
inductive Clones (store : FileDescriptors) (targetFd : Fd) (targetPid : Pid) (next : FileDescriptors) :
    Prop where
  | failed (h : Shrinks store next)
  | created {middle : FileDescriptors} {nodeID : Nat} (first : Shrinks store middle)
      (last : Shrinks (middle.map targetPid nodeID targetFd 0).2 next)

namespace Clones

variable {store next : FileDescriptors} {targetFd : Fd} {targetPid : Pid}

variable (h : Clones store targetFd targetPid next)

include h

theorem nextContent_le : store.nextContent ≤ next.nextContent := by
  cases h with
  | failed hShrinks => exact hShrinks.nextContent.ge
  | created first last =>
    rw [last.nextContent, nextContent_map, first.nextContent]
    exact Nat.le_succ _

theorem ids {address : Nat} (hOld : address < store.nextContent) {found : FileDescriptorContent}
    (hFound : next.contents address = some found) :
    ∃ old, store.contents address = some old ∧ old.id = found.id := by
  cases h with
  | failed hShrinks => exact hShrinks.ids address found hFound
  | created first last =>
    obtain ⟨between, hBetween, hId⟩ := last.ids address found hFound
    rw [contents_map, first.nextContent, Function.update_of_ne (Nat.ne_of_lt hOld)] at hBetween
    obtain ⟨old, hBefore, hOldId⟩ := first.ids address between hBetween
    exact ⟨old, hBefore, hOldId.trans hId⟩

theorem counter (hReal : targetFd ≠ -1) (pid : Pid) :
    next.nextFileDescriptor pid = store.nextFileDescriptor pid := by
  cases h with
  | failed hShrinks => exact hShrinks.counter pid
  | created first last =>
    rw [last.counter, nextFileDescriptor_map_eq, if_neg fun hBoth => hReal hBoth.2, first.counter]

theorem pointer (hReal : targetFd ≠ -1) {pid : Pid}
    {fd : Fd} (hFree : store.pointer pid fd = none) (hFd : targetFd ≠ fd) :
    next.pointer pid fd = none := by
  cases h with
  | failed hShrinks => exact hShrinks.pointer pid fd hFree
  | created first last =>
    apply last.pointer
    rw [pointer_map, map_fst, if_neg hReal, if_neg fun hBoth => hFd hBoth.2]
    exact first.pointer pid fd hFree

end Clones

theorem openClone_clones
    (hOpen : fs.openClone node source targetFd targetPid = some (r, status, next)) :
    Clones fs.descriptors targetFd targetPid next.descriptors := by
  have hMap := @mapFile_descriptors fs node targetPid 0 targetFd
  have hRest : Shrinks (fs.mapFile targetPid node 0 targetFd).2.descriptors next.descriptors := by
    rcases openClone_cases hOpen with rfl | rfl | ⟨target, hClone⟩
    · exact Shrinks.refl _
    · exact touch_shrinks _ targetPid
    · exact (touch_shrinks _ targetPid).trans (cloneInto_shrinks hClone)
  rcases hMap with hMap | hMap
  · rw [hMap] at hRest
    exact .failed hRest
  · rw [hMap] at hRest
    exact .created (Shrinks.refl _) hRest

theorem clonefd_clones (h : fs.Valid) {sourceFd : Fd}
        (hClone : fs.clonefd sourceFd sourcePid targetFd targetPid = some (r, status, next)) :
    Clones fs.descriptors targetFd targetPid next.descriptors := by
  rcases clonefd_cases hClone with rfl | ⟨node, source, closed, hClose, hOpen⟩
  · exact .failed (touch_shrinks fs sourcePid)
  · have hFirst := (touch_shrinks fs sourcePid).trans (closeTarget_shrinks (h.touch sourcePid) hClose)
    cases openClone_clones hOpen with
    | failed hRest => exact .failed (hFirst.trans hRest)
    | created hMiddle hRest => exact .created (hFirst.trans hMiddle) hRest

/-- A clone at a number of its own needs a number below the counter. -/
theorem Numbered.clones {store next : FileDescriptors} (h : Numbered store)
    (hFd : if targetFd = -1 then store.nextFileDescriptor targetPid < 2 ^ 31 - 1
      else targetFd < store.nextFileDescriptor targetPid)
    (hClones : Clones store targetFd targetPid next) : Numbered next := by
  cases hClones with
  | failed hShrinks => exact h.shrinks hShrinks
  | created first last =>
    rw [← first.counter] at hFd
    exact ((h.shrinks first).map hFd).shrinks last

end Calls

/-- A number that is given for a new descriptor is below the counter of its
process, and the counter can still be increased where it is used. -/
def KeepsNumbers (fs : FileSystem) : ProcessEvent → Prop
  | .operation (.openNode pid _ _) => fs.descriptors.nextFileDescriptor pid < 2 ^ 31 - 1
  | .operation (.pipe pid _ _) => fs.descriptors.nextFileDescriptor pid < 2 ^ 31 - 2
  | .operation (.clonefd _ _ targetFd targetPid) =>
    if targetFd = -1 then fs.descriptors.nextFileDescriptor targetPid < 2 ^ 31 - 1
    else targetFd < fs.descriptors.nextFileDescriptor targetPid
  | .fork source fork => ∀ fd, fs.descriptors.pointer source fd ≠ none →
      fd < fs.descriptors.nextFileDescriptor fork
  | _ => True

structure NumberedStep (fs : FileSystem) (event : ProcessEvent) (next : FileSystem) : Prop where
  step : ProcessStep fs event next
  keeps : KeepsNumbers fs event

structure Numbering (fs : FileSystem) : Prop where
  valid : fs.Valid
  numbered : Numbered fs.descriptors

section Steps

variable {fs next s t : FileSystem} {pid source fork : Pid} {content : Nat}

theorem Numbered.mapFile (h : Numbered fs.descriptors) (node : FsNode) (openFlags : Int)
    (hCounter : fs.descriptors.nextFileDescriptor pid < 2 ^ 31 - 1) :
    Numbered (fs.mapFile pid node openFlags (-1)).2.descriptors := by
  rcases @mapFile_descriptors fs node pid openFlags (-1) with hSame | hMap
  · rw [hSame]
    exact h
  · rw [hMap]
    exact h.map (by rwa [if_pos rfl])

theorem nextFileDescriptor_mapFile (h : Numbered fs.descriptors) (node : FsNode) (openFlags : Int)
    (hCounter : fs.descriptors.nextFileDescriptor pid < 2 ^ 31 - 2) :
    (fs.mapFile pid node openFlags (-1)).2.descriptors.nextFileDescriptor pid < 2 ^ 31 - 1 := by
  rcases @mapFile_descriptors fs node pid openFlags (-1) with hSame | hMap
  · lia
  · have hLow := h.low pid
    have hNext : Int.bmod (fs.descriptors.nextFileDescriptor pid + 1) wordSize =
        fs.descriptors.nextFileDescriptor pid + 1 :=
      Int.bmod_eq_of_le_mul_two (by unfold wordSize; lia) (by unfold wordSize; lia)
    rw [hMap, nextFileDescriptor_map_eq]
    lia

theorem Numbered.pipe (h : Numbered fs.descriptors) (buffer : Nat) (bytes : Nat → UInt8)
    (hCounter : fs.descriptors.nextFileDescriptor pid < 2 ^ 31 - 2) :
    Numbered (fs.pipe pid buffer bytes).2.2.descriptors := by
  rw [FileSystem.pipe]
  apply Numbered.mapFile
  · apply Numbered.mapFile
    · exact h
    · lia
  · apply nextFileDescriptor_mapFile
    · exact h
    · exact hCounter

/-- The state of a fork between two rounds: the numbers of the entries that it
walks over stay what they were. -/
structure Forking (entries : List Nat) (fork : Pid) (limit : Fd) (s : FileSystem) : Prop where
  valid : s.Valid
  numbered : Numbered s.descriptors
  counter : s.descriptors.nextFileDescriptor fork = limit
  old : ∀ address ∈ entries, address < s.descriptors.nextContent
  below : ∀ address ∈ entries, ∀ content, s.descriptors.contents address = some content →
    content.id ≠ -1 ∧ content.id < limit

theorem Forking.cloneNext {entries : List Nat} {limit : Fd}
    (h : Forking entries fork limit s) (hMem : content ∈ entries)
    (hStep : cloneNext source fork s content = some t) : Forking entries fork limit t := by
  have hValid := cloneNext_valid h.valid hStep
  unfold FileSystem.cloneNext at hStep
  split at hStep
  · cases hStep
  · rename_i descriptor hContent
    obtain ⟨⟨r, status, cloned⟩, hClone, rfl⟩ := Option.map_eq_some_iff.mp hStep
    obtain ⟨hReal, hBelow⟩ := h.below content hMem descriptor hContent
    have hClones := clonefd_clones h.valid hClone
    have hNumbered : Numbered cloned.descriptors := by
      refine Numbered.clones h.numbered ?_ hClones
      rwa [if_neg hReal, h.counter]
    refine ⟨hValid, hNumbered, (hClones.counter hReal fork).trans h.counter, fun address hAddress => ?_,
      fun address hAddress found hFound => ?_⟩
    · exact Nat.lt_of_lt_of_le (h.old address hAddress) hClones.nextContent_le
    · obtain ⟨old, hOld, hId⟩ := hClones.ids (h.old address hAddress) hFound
      rw [← hId]
      exact h.below address hAddress old hOld

/-- The child has the numbers of its parent, below its own counter. -/
theorem Numbered.processForked (h : Numbered fs.descriptors) (hValid : fs.Valid)
    (hBelow : ∀ fd, fs.descriptors.pointer source fd ≠ none →
      fd < fs.descriptors.nextFileDescriptor fork)
    (hStep : fs.processForked source fork = some next) : Numbered next.descriptors := by
  have hShrinks := touch_shrinks fs source
  have hStart : Forking (fs.descriptors.getProcessTable source).1.descriptors.values fork
      (fs.descriptors.nextFileDescriptor fork) (fs.touch source) := by
    have hEntry : ∀ address ∈ (fs.descriptors.getProcessTable source).1.descriptors.values,
        ∃ fd, fs.descriptors.pointer source fd = some address := by
      intro address hAddress
      obtain ⟨fd, hFd⟩ := HashMap.mem_values.mp hAddress
      rw [getProcessTable_descriptors] at hFd
      exact ⟨fd, hFd⟩
    refine ⟨hValid.touch source, h.shrinks hShrinks, hShrinks.counter fork, fun address hAddress => ?_,
      fun address hAddress content hContent => ?_⟩
    · obtain ⟨fd, hFd⟩ := hEntry address hAddress
      obtain ⟨content, hContent, -⟩ := hValid.descriptors.live source fd address hFd
      rw [hShrinks.nextContent]
      exact hValid.descriptors.fresh address (by rw [hContent]; exact Option.some_ne_none _)
    · obtain ⟨fd, hFd⟩ := hEntry address hAddress
      obtain ⟨found, hFound, hId⟩ := hValid.descriptors.live source fd address hFd
      rw [touch_contents, hFound] at hContent
      cases hContent
      have hOpen : fs.descriptors.pointer source fd ≠ none := by
        rw [hFd]
        exact Option.some_ne_none _
      rw [hId]
      exact ⟨h.real source fd hOpen, hBelow fd hOpen⟩
  have hEnd := (processForked_run hStep).invariant_of_mem hStart
    fun s content t hMem hForking hNext => hForking.cloneNext hMem hNext
  exact hEnd.numbered

theorem Numbered.closeNext (hValid : s.Valid)
    (h : Numbered s.descriptors) (hStep : closeNext pid s content = some t) : Numbered t.descriptors := by
  unfold FileSystem.closeNext at hStep
  split at hStep
  · cases hStep
  · split at hStep
    · cases hStep
      exact h
    · obtain ⟨⟨closed, unmapped⟩, hUnmap, rfl⟩ := Option.map_eq_some_iff.mp hStep
      exact h.shrinks (unmapFile_shrinks hValid hUnmap)

theorem Numbered.processClosed (h : Numbered fs.descriptors) (hValid : fs.Valid)
    (hStep : fs.processClosed pid = some next) : Numbered next.descriptors := by
  obtain ⟨closed, hRun, rfl⟩ := processClosed_run hStep
  have hStart : Numbering (fs.touch pid) := ⟨hValid.touch pid, h.shrinks (touch_shrinks fs pid)⟩
  have hClosed : Numbering closed := hRun.invariant hStart fun s content t hNumbering hNext =>
    ⟨closeNext_valid hNumbering.valid hNext, Numbered.closeNext hNumbering.valid hNumbering.numbered hNext⟩
  exact hClosed.numbered.unmapAll pid

/-- The step lemma: the counters stay above the descriptors in use. -/
theorem NumberedStep.numbered {event : ProcessEvent} (hStep : NumberedStep fs event next)
    (hNumbering : Numbering fs) : Numbered next.descriptors := by
  obtain ⟨hStep, hKeeps⟩ := hStep
  obtain ⟨hValid, h⟩ := hNumbering
  cases event with
  | fork source fork => exact Numbered.processForked h hValid hKeeps hStep
  | exit pid => exact Numbered.processClosed h hValid hStep
  | operation operation =>
    cases operation with
    | fsCreateNode parentID name type physFsID =>
      cases hStep
      rw [FileSystem.fsCreateNode]
      split
      · exact h
      · split <;> exact h
    | createDelegate thread name physMountpointID =>
      cases hStep
      rw [FileSystem.createDelegate]
      split <;> exact h
    | createVfsNode ramdiskNode parent =>
      rw [ProcessStep, executeEvent, execute] at hStep
      split at hStep <;> cases hStep <;> exact h
    | pipe pid buffer bytes =>
      cases hStep
      exact Numbered.pipe h buffer bytes hKeeps
    | openNode pid nodeID openFlags =>
      rw [ProcessStep, executeEvent, execute] at hStep
      split at hStep
      · cases hStep
        exact h
      · cases hStep
        exact Numbered.mapFile h _ openFlags hKeeps
    | close pid fd =>
      rcases close_cases hStep with rfl | ⟨node, address, closed, hUnmap⟩
      · exact h.shrinks (touch_shrinks fs pid)
      · exact (h.shrinks (touch_shrinks fs pid)).shrinks
          (unmapFile_shrinks (hValid.touch pid) hUnmap)
    | move pid fd offset =>
      rw [ProcessStep, executeEvent, execute] at hStep
      split at hStep
      · cases hStep
        exact h
      · obtain ⟨descriptors, hModify, rfl⟩ := Option.map_eq_some_iff.mp hStep
        have hId : ∀ content : FileDescriptorContent,
            { content with offset := offset }.id = content.id := fun _ => rfl
        exact h.shrinks (shrinks_modifyContent hId hModify)
    | clonefd sourceFd sourcePid targetFd targetPid =>
      obtain ⟨⟨r, status, cloned⟩, hClone, rfl⟩ := Option.map_eq_some_iff.mp hStep
      exact Numbered.clones h hKeeps (clonefd_clones hValid hClone)
    | unmapAll pid =>
      cases hStep
      exact h.unmapAll pid

end Steps

section Fresh

variable {fs : FileSystem}
variable {other : Pid} {fd : Fd} {content : FileDescriptorContent}

/-- The number that the counter gives is not in use. -/
theorem Numbering.map_unused (h : Numbering fs) (pid : Pid) (nodeID : Nat) (openFlags : Int) :
    fs.descriptors.descriptor pid (fs.descriptors.map pid nodeID (-1) openFlags).1 = none := by
  have hFree : fs.descriptors.pointer pid (fs.descriptors.map pid nodeID (-1) openFlags).1 = none := by
    by_contra hUsed
    have hBelow := h.numbered.below pid _ hUsed
    exact lt_irrefl _ hBelow
  rw [descriptor, hFree]
  rfl

theorem Numbering.map_keeps (h : Numbering fs) (pid : Pid) (nodeID : Nat) (openFlags : Int)
    (hContent : fs.descriptors.descriptor other fd = some content) :
    (fs.descriptors.map pid nodeID (-1) openFlags).2.descriptor other fd = some content := by
  rw [descriptor_map h.valid.descriptors, if_neg, hContent]
  rintro ⟨rfl, rfl⟩
  rw [h.map_unused] at hContent
  cases hContent

theorem Numbering.mapFile_keeps (h : Numbering fs) (pid : Pid) (node : FsNode) (openFlags : Int)
    (hContent : fs.descriptors.descriptor other fd = some content) :
    (fs.mapFile pid node openFlags (-1)).2.descriptors.descriptor other fd = some content := by
  rcases @mapFile_descriptors fs node pid openFlags (-1) with hSame | hMap
  · rw [hSame]
    exact hContent
  · rw [hMap]
    exact h.map_keeps pid node.id openFlags hContent

theorem Numbering.pipe_keeps (h : Numbering fs) {pid : Pid} (buffer : Nat) (bytes : Nat → UInt8)
    (hCounter : fs.descriptors.nextFileDescriptor pid < 2 ^ 31 - 1)
    (hContent : fs.descriptors.descriptor other fd = some content) :
    (fs.pipe pid buffer bytes).2.2.descriptors.descriptor other fd = some content := by
  have hNode := h.valid.insert h.valid.pipeRoot none .pipe
    ((fs.pipes.create buffer bytes).1 % (2 ^ 64 : Nat)).toNat none
  have hPipe : Numbering { fs with
      vfs := (fs.vfs.insert Vfs.pipeRoot none .pipe
        ((fs.pipes.create buffer bytes).1 % (2 ^ 64 : Nat)).toNat none).2
      pipes := (fs.pipes.create buffer bytes).2 } :=
    ⟨hNode.of_descriptors rfl hNode.descriptors, h.numbered⟩
  rw [FileSystem.pipe]
  apply Numbering.mapFile_keeps
  · exact ⟨hPipe.valid.mapFile .., Numbered.mapFile hPipe.numbered _ 0 hCounter⟩
  · exact hPipe.mapFile_keeps pid _ 0 hContent

end Fresh

/-- As long as numbers are only given below the counters, and no counter runs over, a descriptor
without a given number gets an unused one, and neither an open nor a pipe touches an open
descriptor. -/
theorem map_fresh {ramdisk : Ramdisk} {events : List ProcessEvent} {fs : FileSystem}
    (run : Run NumberedStep (initial ramdisk) events fs) (pid : Pid) :
    (∀ nodeID openFlags, fs.descriptors.descriptor pid
        (fs.descriptors.map pid nodeID (-1) openFlags).1 = none) ∧
      ∀ other fd content, fs.descriptors.descriptor other fd = some content →
        (∀ node openFlags, (fs.mapFile pid node openFlags (-1)).2.descriptors.descriptor other fd =
          some content) ∧
        ∀ buffer bytes, fs.descriptors.nextFileDescriptor pid < 2 ^ 31 - 1 →
          (fs.pipe pid buffer bytes).2.2.descriptors.descriptor other fd = some content := by
  have hStart : Numbering (initial ramdisk) := ⟨initial_valid ramdisk, Numbered.initial⟩
  have hReached : Numbering fs := run.invariant hStart fun s event t hNumbering hStep =>
    ⟨hStep.step.valid hNumbering.valid, hStep.numbered hNumbering⟩
  refine ⟨hReached.map_unused pid, fun other fd content hContent => ⟨fun node openFlags => ?_,
    fun buffer bytes hCounter => ?_⟩⟩
  · exact hReached.mapFile_keeps pid node openFlags hContent
  · exact hReached.pipe_keeps buffer bytes hCounter hContent

/-- A file below the root that process 1 has opened, cloned to the number 1 and
opened again. -/
def clonedBelow : List ProcessEvent :=
  [.operation (.fsCreateNode Vfs.root [97] .file 1), .operation (.openNode 1 4 0),
    .operation (.clonefd 3 1 1 1), .operation (.openNode 1 4 0)]

theorem map_fresh_clonedBelow : ∃ fs, Run NumberedStep (initial emptyRamdisk) clonedBelow fs ∧
      (fs.descriptors.map 1 4 (-1) 0).1 = 5 ∧ fs.descriptors.descriptor 1 5 = none ∧
      fs.descriptors.descriptor 1 1 = some ⟨1, 0, 4, 0⟩ ∧
      (fs.pipe 1 0x1000 fun _ => 0).2.2.descriptors.descriptor 1 1 = some ⟨1, 0, 4, 0⟩ := by
  have hFile : Run NumberedStep (initial emptyRamdisk)
      [.operation (.fsCreateNode Vfs.root [97] .file 1)] _ := Run.single ⟨rfl, trivial⟩
  have hOpen := Run.snoc hFile
    ⟨(rfl : executeEvent _ (.operation (.openNode 1 4 0)) = some _), (by decide : (3 : Int) < 2 ^ 31 - 1)⟩
  have hClone := Run.snoc hOpen
    ⟨(rfl : executeEvent _ (.operation (.clonefd 3 1 1 1)) = some _), (by decide : (1 : Int) < 4)⟩
  have hRun := Run.snoc hClone
    ⟨(rfl : executeEvent _ (.operation (.openNode 1 4 0)) = some _), (by decide : (4 : Int) < 2 ^ 31 - 1)⟩
  obtain ⟨hFresh, hKept⟩ := map_fresh hRun 1
  exact ⟨_, hRun, rfl, hFresh 4 0, rfl, (hKept 1 1 _ rfl).2 _ _ (by decide : (5 : Int) < 2 ^ 31 - 1)⟩

/-- A process with a file open forks. The first descriptor that the new process
opens gets the number of the one it has inherited. -/
theorem open_replaces_inherited : ∃ fs, Run ProcessStep (initial emptyRamdisk)
        [.operation (.fsCreateNode Vfs.root [97] .file 1), .operation (.openNode 1 4 0), .fork 1 2] fs ∧
      fs.descriptors.descriptor 2 3 = some ⟨3, 0, 4, 0⟩ ∧ (fs.descriptors.map 2 4 (-1) 7).1 = 3 ∧
      (fs.descriptors.map 2 4 (-1) 7).2.descriptor 2 3 = some ⟨3, 0, 4, 7⟩ :=
  ⟨_, Run.of_foldlM rfl, rfl, rfl, rfl⟩

end Kernel.FileSystem
