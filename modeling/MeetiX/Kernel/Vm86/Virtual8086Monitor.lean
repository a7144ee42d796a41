import Mathlib.Data.BitVec

/-! The monitor of the virtual 8086 mode. An instruction that the privilege of the guest does not
allow raises a general protection fault, and `handleGpf` emulates it on the saved processor state,
the memory and the virtual interrupt flag. Pointers of the guest are turned into linear ones. -/
namespace Kernel.Vm86

abbrev Memory := BitVec 32 → BitVec 8

/-- The memory after bytes have been written one behind the other. -/
def store (memory : Memory) (address : BitVec 32) (bytes : List (BitVec 8)) : Memory := fun a =>
  (bytes[(a - address).toNat]?).getD (memory a)

def readShort (memory : Memory) (address : BitVec 32) : BitVec 16 :=
  memory (address + 1) ++ memory address

def readInteger (memory : Memory) (address : BitVec 32) : BitVec 32 :=
  readShort memory (address + 2) ++ readShort memory address

def shortBytes (value : BitVec 16) : List (BitVec 8) :=
  [value.extractLsb' 0 8, value.extractLsb' 8 8]

def segoffToLinear (seg off : BitVec 32) : BitVec 32 :=
  ((seg &&& 0xFFFF) <<< 4) + (off &&& 0xFFFF)

def eflagIf : BitVec 32 := 0x200
def eflagVm : BitVec 32 := 0x20000
def validFlags : BitVec 32 := 0xDFF

inductive VirtualMonitorHandlingResult where
  | successful
  | unhandledOpcode
  | finished
  deriving DecidableEq

structure Vm86Registers where
  ax : BitVec 16
  bx : BitVec 16
  cx : BitVec 16
  dx : BitVec 16
  si : BitVec 16
  di : BitVec 16
  ds : BitVec 16
  es : BitVec 16

inductive PortWrite where
  | byte (port : BitVec 16) (value : BitVec 8)
  | short (port : BitVec 16) (value : BitVec 16)

/-- What the devices answer to a read of a port. -/
structure IoPorts where
  readByte : BitVec 16 → BitVec 8
  readShort : BitVec 16 → BitVec 16

/-- The saved processor state of a task with its `ThreadInformationVm86`, the
memory and what was written to the ports. -/
structure Vm86Thread where
  eax : BitVec 32
  ebx : BitVec 32
  ecx : BitVec 32
  edx : BitVec 32
  esi : BitVec 32
  edi : BitVec 32
  ds : BitVec 32
  es : BitVec 32
  eip : BitVec 32
  cs : BitVec 32
  eflags : BitVec 32
  esp : BitVec 32
  ss : BitVec 32
  cpuIf : Bool
  out : Vm86Registers
  interruptRecursionLevel : BitVec 32
  memory : Memory
  written : List PortWrite

namespace Vm86Thread

variable (t : Vm86Thread)

/-- The linear pointers that the monitor computes from the saved state. -/
def ip : BitVec 32 := segoffToLinear t.cs t.eip

def sp : BitVec 32 := segoffToLinear t.ss t.esp

/-- The flags as the guest sees them, with its own interrupt flag. -/
def virtualFlags {width : Nat} (flags : BitVec width) : BitVec width :=
  if t.cpuIf then flags ||| eflagIf.setWidth width else flags &&& ~~~eflagIf.setWidth width

/-- The words are put below the stack pointer, the first one at the lowest address. -/
def push (words : List (BitVec 16)) : Vm86Thread :=
  let size := BitVec.ofNat 32 (2 * words.length)
  { t with
    esp := ((t.esp &&& 0xFFFF) - size) &&& 0xFFFF
    memory := store t.memory (t.sp - size) (words.flatMap shortBytes) }

def pop (size : BitVec 32) : Vm86Thread :=
  { t with esp := ((t.esp &&& 0xFFFF) + size) &&& 0xFFFF }

def next : Vm86Thread := { t with eip := t.eip + 1 }

def flagWords (operands32 : Bool) (t : Vm86Thread) : List (BitVec 16) :=
  if operands32 then
    let flags := t.virtualFlags (t.eflags &&& validFlags)
    [flags.extractLsb' 0 16, flags.extractLsb' 16 16]
  else [t.virtualFlags (t.eflags.setWidth 16)]

def popf (operands32 : Bool) (t : Vm86Thread) : Vm86Thread :=
  if operands32 then
    let flags := readInteger t.memory t.sp
    { t.pop 4 with
      eflags := eflagIf ||| eflagVm ||| (flags &&& validFlags)
      cpuIf := flags &&& eflagIf != 0 }
  else
    let flags := readShort t.memory t.sp
    { t.pop 2 with
      eflags := eflagIf ||| eflagVm ||| flags.setWidth 32
      cpuIf := flags &&& eflagIf.setWidth 16 != 0 }

def interruptWords : List (BitVec 16) :=
  [(t.eip + 2).setWidth 16, t.cs.setWidth 16, t.virtualFlags (t.eflags.setWidth 16)]

/-- The number of the interrupt and its vector are read after the stack was written. -/
def int (ip : BitVec 32) (t : Vm86Thread) : Vm86Thread :=
  let pushed := t.push t.interruptWords
  let entry := readInteger pushed.memory (4 * (pushed.memory (ip + 1)).setWidth 32)
  { pushed with
    cs := entry >>> 16
    eip := entry &&& 0xFFFF
    interruptRecursionLevel := t.interruptRecursionLevel + 1 }

def iret : VirtualMonitorHandlingResult × Vm86Thread :=
  let flags := readShort t.memory (t.sp + 4)
  let returned := { t.pop 6 with
    eip := (readShort t.memory t.sp).setWidth 32
    cs := (readShort t.memory (t.sp + 2)).setWidth 32
    eflags := eflagIf ||| eflagVm ||| flags.setWidth 32
    cpuIf := flags &&& eflagIf.setWidth 16 != 0 }
  if t.interruptRecursionLevel = 0 then
    (.finished, { returned with
      out := ⟨t.eax.setWidth 16, t.ebx.setWidth 16, t.ecx.setWidth 16, t.edx.setWidth 16,
        t.esi.setWidth 16, t.edi.setWidth 16, t.ds.setWidth 16, t.es.setWidth 16⟩ })
  else
    (.successful,
      { returned with interruptRecursionLevel := t.interruptRecursionLevel - 1 })

/-- The instruction behind the prefixes. -/
def emulate (ports : IoPorts) (ip : BitVec 32) (operands32 : Bool) (t : Vm86Thread) :
    VirtualMonitorHandlingResult × Vm86Thread :=
  match t.memory ip with
  | 0x9C#8 => (.successful, (t.push (t.flagWords operands32)).next)
  | 0x9D#8 => (.successful, (t.popf operands32).next)
  | 0xCD#8 => (.successful, t.int ip)
  | 0xCF#8 => t.iret
  | 0xFA#8 => (.successful, { t.next with cpuIf := false })
  | 0xFB#8 => (.successful, { t.next with cpuIf := true })
  | 0xEE#8 => (.successful, { t.next with
      written := t.written ++ [.byte (t.edx.setWidth 16) (t.eax.setWidth 8)] })
  | 0xEF#8 => (.successful, { t.next with
      written := t.written ++ [.short (t.edx.setWidth 16) (t.eax.setWidth 16)] })
  | 0xEC#8 => (.successful, { t.next with
      eax := (t.eax &&& ~~~0xFF) ||| (ports.readByte (t.edx.setWidth 16)).setWidth 32 })
  | 0xED#8 => (.successful, { t.next with
      eax := (t.eax &&& ~~~0xFFFF) ||| (ports.readShort (t.edx.setWidth 16)).setWidth 32 })
  | _ => (.unhandledOpcode, t)

/-- The loop over the prefixes. It has not ended when all rounds are used up. -/
def skipPrefixes : Nat → BitVec 32 → Bool → Vm86Thread → Option (BitVec 32 × Bool × Vm86Thread)
  | 0, _, _, _ => none
  | rounds + 1, ip, operands32, t =>
    if t.memory ip = 0x66 then skipPrefixes rounds (ip + 1) true t.next
    else if t.memory ip = 0x67 then skipPrefixes rounds (ip + 1) operands32 t.next
    else some (ip, operands32, t)

/-- There are as many rounds as addresses. -/
def fetch : Option (BitVec 32 × Bool × Vm86Thread) :=
  skipPrefixes (2 ^ 32) t.ip false t

def handleGpf (ports : IoPorts) (t : Vm86Thread) :
    Option (VirtualMonitorHandlingResult × Vm86Thread) :=
  t.fetch.map fun (ip, operands32, t) => t.emulate ports ip operands32

/-- The state that `createProcessVm86` gives to a new task. -/
def createProcessVm86 (interrupt : BitVec 8) (input out : Vm86Registers) (userStackVirt : BitVec 32)
    (memory : Memory) : Vm86Thread where
  eax := input.ax.setWidth 32
  ebx := input.bx.setWidth 32
  ecx := input.cx.setWidth 32
  edx := input.dx.setWidth 32
  esi := input.si.setWidth 32
  edi := input.di.setWidth 32
  ds := input.ds.setWidth 32
  es := input.es.setWidth 32
  eip := readInteger memory (4 * interrupt.setWidth 32) &&& 0xFFFF
  cs := readInteger memory (4 * interrupt.setWidth 32) >>> 16
  eflags := 0x20202
  esp := 0x1000
  ss := ((userStackVirt &&& ~~~0xFFF) + 0x1000) >>> 4
  cpuIf := false
  out := out
  interruptRecursionLevel := 0
  memory := memory
  written := []

variable {t : Vm86Thread} {rounds : Nat} {ip : BitVec 32} {operands32 : Bool}

/-- The prefixes only move the instruction pointer. -/
theorem skipPrefixes_eq {ip' : BitVec 32} {operands32' : Bool} {t' : Vm86Thread}
    (h : skipPrefixes rounds ip operands32 t = some (ip', operands32', t')) :
    t' = { t with eip := t'.eip } := by
  induction rounds generalizing ip operands32 t with
  | zero => simp [skipPrefixes] at h
  | succ rounds ih =>
    rw [skipPrefixes] at h
    split_ifs at h
    · exact (ih h :)
    · exact (ih h :)
    · simp at h
      simp [h]

/-- The loop ends unless there are only prefixes in the memory. -/
theorem skipPrefixes_isSome {distance : Nat} (hRounds : distance < rounds)
    (h : t.memory (ip + BitVec.ofNat 32 distance) ∉ [0x66#8, 0x67#8]) :
    (skipPrefixes rounds ip operands32 t).isSome := by
  induction distance generalizing rounds ip operands32 t with
  | zero => cases rounds <;> simp_all [skipPrefixes]
  | succ distance ih =>
    cases rounds with
    | zero => omega
    | succ rounds =>
      have hAhead : ip + BitVec.ofNat 32 (distance + 1) = ip + 1 + BitVec.ofNat 32 distance := by
        rw [BitVec.add_assoc, BitVec.ofNat_add, BitVec.add_comm (BitVec.ofNat 32 distance)]
        rfl
      rw [hAhead] at h
      rw [skipPrefixes]
      split_ifs
      · exact ih (by omega) h
      · exact ih (by omega) h
      · rfl

theorem handleGpf_isSome (ports : IoPorts) (address : BitVec 32)
    (h : t.memory address ∉ [0x66#8, 0x67#8]) : (t.handleGpf ports).isSome := by
  have hFetch : t.fetch.isSome := by
    apply skipPrefixes_isSome (address - t.ip).isLt
    rwa [BitVec.ofNat_toNat, BitVec.setWidth_eq, BitVec.add_comm, BitVec.sub_add_cancel]
  simpa [handleGpf] using hFetch

/-- The word of the guest's stack that an instruction loads into the flags as it is. -/
def loadedFlags (ip : BitVec 32) (operands32 : Bool) (t : Vm86Thread) : Option (BitVec 16) :=
  if t.memory ip = 0x9D ∧ operands32 = false then some (readShort t.memory t.sp)
  else if t.memory ip = 0xCF then some (readShort t.memory (t.sp + 4))
  else none

/-- Outside of the valid flags exactly the two bits are set that the monitor sets. -/
def Confined (t : Vm86Thread) : Prop := t.eflags &&& ~~~validFlags = eflagIf ||| eflagVm

/-- The bits that an instruction may load besides those that the monitor sets. -/
def Valid (flags : BitVec 32) : Prop := flags &&& ~~~(validFlags ||| eflagIf ||| eflagVm) = 0

/-- A word that is loaded as it is has no other bits. -/
def PopsValidFlags (t : Vm86Thread) : Prop :=
  ∀ ip operands32 t', t.fetch = some (ip, operands32, t') →
    ∀ flags ∈ loadedFlags ip operands32 t', Valid (flags.setWidth 32)

/-- What a task goes through: its own code, which can only change valid flags, and
the instructions that the monitor emulates for it in the allowed states. -/
inductive Step (Allowed : Vm86Thread → Prop) : Vm86Thread → Vm86Thread → Prop where
  | guest {s t : Vm86Thread} (h : t.eflags &&& ~~~validFlags = s.eflags &&& ~~~validFlags) :
      Step Allowed s t
  | emulated {s t : Vm86Thread} {ports : IoPorts} {result : VirtualMonitorHandlingResult}
      (hAllowed : Allowed s) (h : s.handleGpf ports = some (result, t)) : Step Allowed s t

theorem confined_or_iff (flags : BitVec 32) :
    (eflagIf ||| eflagVm ||| flags) &&& ~~~validFlags = eflagIf ||| eflagVm ↔ Valid flags := by
  have hSet : (eflagIf ||| eflagVm) &&& ~~~validFlags = eflagIf ||| eflagVm := by decide
  rw [Valid, BitVec.or_assoc validFlags]
  revert hSet
  generalize eflagIf ||| eflagVm = set
  intro hSet
  constructor
  · intro h
    ext i hi
    have hBit := congrArg (·.getLsbD i) h
    have hSetBit := congrArg (·.getLsbD i) hSet
    simp at hBit hSetBit ⊢
    grind
  · intro h
    ext i hi
    have hBit := congrArg (·.getLsbD i) h
    have hSetBit := congrArg (·.getLsbD i) hSet
    simp at hBit hSetBit ⊢
    grind

theorem emulate_confined_iff (h : t.Confined) (ports : IoPorts) (ip : BitVec 32)
    (operands32 : Bool) : (t.emulate ports ip operands32).2.Confined ↔
      ∀ flags ∈ loadedFlags ip operands32 t, Valid (flags.setWidth 32) := by
  unfold Confined at *
  rw [emulate]
  split
  case h_2 hByte =>
    cases operands32 with
    | false => simp [loadedFlags, popf, next, pop, hByte, confined_or_iff]
    | true =>
      have hMasked (flags : BitVec 32) : Valid (flags &&& validFlags) := by
        ext i hi
        simp
        grind
      simp [loadedFlags, popf, next, pop, hByte, confined_or_iff, hMasked]
  case h_4 hByte =>
    have hFlags : t.iret.2.eflags =
        eflagIf ||| eflagVm ||| (readShort t.memory (t.sp + 4)).setWidth 32 := by
      rw [iret]
      split_ifs <;> rfl
    simp [loadedFlags, hByte, hFlags, confined_or_iff]
  all_goals simp_all [loadedFlags, next, push, int]

theorem handleGpf_confined_iff {ports : IoPorts} {result : VirtualMonitorHandlingResult}
    {s : Vm86Thread} (hConfined : s.Confined) (h : s.handleGpf ports = some (result, t)) :
    t.Confined ↔ s.PopsValidFlags := by
  rw [handleGpf, Option.map_eq_some_iff] at h
  obtain ⟨⟨ip, operands32, fetched⟩, hFetch, hEmulate⟩ := h
  have hFetched : fetched.Confined := by
    rw [skipPrefixes_eq hFetch]
    exact hConfined
  have hIff := emulate_confined_iff hFetched ports ip operands32
  simp_all [PopsValidFlags]

/-- As long as only valid flags are popped, none of the other bits changes. Where
another bit is popped, it gets into the flags of the processor. -/
theorem flags_confined (interrupt : BitVec 8) (input out : Vm86Registers)
    (userStackVirt : BitVec 32) (memory : Memory) (s : Vm86Thread) :
    (Relation.ReflTransGen (Step PopsValidFlags)
      (createProcessVm86 interrupt input out userStackVirt memory) s → s.Confined) ∧
    (s.Confined → ∀ ports result t, s.handleGpf ports = some (result, t) →
      (t.Confined ↔ s.PopsValidFlags)) := by
  constructor
  · intro hRun
    induction hRun with
    | refl =>
      show (0x20202 : BitVec 32) &&& ~~~validFlags = eflagIf ||| eflagVm
      decide
    | tail _ hStep ih =>
      cases hStep with
      | guest h => exact h.trans ih
      | emulated hAllowed h => exact (handleGpf_confined_iff ih h).mpr hAllowed
  · intro hConfined ports result t h
    exact handleGpf_confined_iff hConfined h

def noRegisters : Vm86Registers := ⟨0, 0, 0, 0, 0, 0, 0, 0⟩

/-- A task in a memory that holds nothing but one instruction. -/
def repeating (opcode : BitVec 8) : Vm86Thread :=
  createProcessVm86 0x10 noRegisters noRegisters 0x5000 fun _ => opcode

def silentPorts : IoPorts := ⟨fun _ => 0, fun _ => 0⟩

theorem flags_confined_sti : ∃ result t,
    (repeating 0xFB).handleGpf silentPorts = some (result, t) ∧ t.Confined := by
  obtain ⟨⟨result, t⟩, h⟩ := Option.isSome_iff_exists.mp
    (handleGpf_isSome silentPorts (t := repeating 0xFB) 0 (by decide))
  refine ⟨result, t, h, (flags_confined _ _ _ _ _ t).1 (.single (.emulated ?_ h))⟩
  intro ip operands32 fetched hFetch
  rw [skipPrefixes_eq hFetch]
  simp [loadedFlags, createProcessVm86]

/-- Bits 12 and 15 of the word `9D9D` get into the flags. -/
theorem flags_not_confined : ∃ t,
    Relation.ReflTransGen (Step fun _ => True) (repeating 0x9D) t ∧ ¬t.Confined := by
  have hSome : ((repeating 0x9D).handleGpf silentPorts).isSome := by decide +kernel
  refine ⟨_, .single (.emulated trivial (Option.some_get hSome).symm), ?_⟩
  unfold Confined
  decide +kernel

end Vm86Thread

end Kernel.Vm86
