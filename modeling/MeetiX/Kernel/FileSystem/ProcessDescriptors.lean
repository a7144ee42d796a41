import MeetiX.Kernel.FileSystem.FileSystemHistory

/-! The descriptors of processes that fork and exit. Both walk over the table
of a process; a fork clones what it meets into the table of the new process,
and an exit closes it. -/
namespace Kernel.FileSystem

open Base

/-- One round of the loop of `processForked`. -/
def cloneNext (source fork : Pid) (fs : FileSystem) (content : Nat) : Option FileSystem :=
  match fs.descriptors.contents content with
  | none => none
  | some content => (fs.clonefd content.id source content.id fork).map fun answer => answer.2.2

variable (fs : FileSystem)

/-- `processForked`. The entries are the ones the table has when the loop
begins. -/
def processForked (source fork : Pid) : Option FileSystem :=
  let (sourceTable, descriptors) := fs.descriptors.getProcessTable source
  sourceTable.descriptors.values.foldlM (cloneNext source fork) { fs with descriptors := descriptors }

/-- One round of the loop of `processClosed`. -/
def closeNext (pid : Pid) (fs : FileSystem) (content : Nat) : Option FileSystem :=
  match fs.descriptors.contents content with
  | none => none
  | some descriptor =>
    match fs.vfs.getNodeById descriptor.nodeID with
    | none => some fs
    | some node => (fs.unmapFile pid node content).map Prod.snd

/-- `processClosed`. The loop goes on from an entry that it has just deleted;
the memory of the entry is not used again in between. -/
def processClosed (pid : Pid) : Option FileSystem :=
  let (table, descriptors) := fs.descriptors.getProcessTable pid
  (table.descriptors.values.foldlM (closeNext pid) { fs with descriptors := descriptors }).map
    fun fs => { fs with descriptors := fs.descriptors.unmapAll pid }

inductive ProcessEvent
  | operation (operation : Operation)
  | fork (source fork : Pid)
  | exit (pid : Pid)

def executeEvent : ProcessEvent → Option FileSystem
  | .operation operation => fs.execute operation
  | .fork source fork => fs.processForked source fork
  | .exit pid => fs.processClosed pid

def ProcessStep (event : ProcessEvent) (next : FileSystem) : Prop :=
  fs.executeEvent event = some next

section Valid

variable {fs next : FileSystem}
variable {pid source fork : Pid} {content : Nat}

theorem processForked_run (h : fs.processForked source fork = some next) :
    Run (fun s content t => cloneNext source fork s content = some t) (fs.touch source)
      (fs.descriptors.getProcessTable source).1.descriptors.values next :=
  Run.of_foldlM h

theorem processClosed_run (h : fs.processClosed pid = some next) :
    ∃ closed, Run (fun s content t => closeNext pid s content = some t) (fs.touch pid)
        (fs.descriptors.getProcessTable pid).1.descriptors.values closed ∧
      next = { closed with descriptors := closed.descriptors.unmapAll pid } := by
  obtain ⟨closed, hClosed, rfl⟩ := Option.map_eq_some_iff.mp h
  exact ⟨closed, Run.of_foldlM hClosed, rfl⟩

theorem cloneNext_valid (h : fs.Valid)
    (hStep : cloneNext source fork fs content = some next) : next.Valid := by
  unfold cloneNext at hStep
  split at hStep
  · cases hStep
  · obtain ⟨⟨r, status, cloned⟩, hClone, rfl⟩ := Option.map_eq_some_iff.mp hStep
    exact clonefd_valid h hClone

theorem closeNext_valid (h : fs.Valid)
    (hStep : closeNext pid fs content = some next) : next.Valid := by
  unfold closeNext at hStep
  split at hStep
  · cases hStep
  · split at hStep
    · cases hStep
      exact h
    · obtain ⟨⟨closed, unmapped⟩, hUnmap, rfl⟩ := Option.map_eq_some_iff.mp hStep
      exact (unmapFile_cases h hUnmap).1

theorem ProcessStep.valid {event : ProcessEvent} (hStep : ProcessStep fs event next) (h : fs.Valid) :
    next.Valid := by
  cases event with
  | operation operation => exact Step.valid hStep h
  | fork source fork =>
    have hRun := processForked_run hStep
    exact hRun.invariant (h.touch source) fun _ _ _ hValid hNext => cloneNext_valid hValid hNext
  | exit pid =>
    obtain ⟨closed, hRun, rfl⟩ := processClosed_run hStep
    have hClosed : closed.Valid :=
      hRun.invariant (h.touch pid) fun _ _ _ hValid hNext => closeNext_valid hValid hNext
    exact hClosed.of_descriptors rfl (hClosed.descriptors.unmapAll pid)

end Valid

end Kernel.FileSystem
