import Mathlib.Algebra.Ring.Nat
import Mathlib.Tactic.Common

/-! The fixed-width types of the kernel. Addresses and sizes are natural numbers; where the source
computes in 32 bits one of the operations below says so. The null pointer is the address 0. -/
namespace Kernel

/-- `Tid` and `Pid` are signed 32-bit numbers. A process is named by the
identifier of its main thread. -/
abbrev Tid := Int

abbrev Pid := Tid

def wordSize : Nat := 2 ^ 32

/-- Reduction of a result to `uint32_t`. -/
def wrap32 (n : Nat) : Nat := n % wordSize

/-- The difference of two `uint32_t` values. -/
def sub32 (a b : Nat) : Nat := (a + (wordSize - b % wordSize)) % wordSize

/-- A 32-bit word read as `int32_t`. -/
def toInt32 (n : Nat) : Int :=
  if n % wordSize < 2 ^ 31 then (n % wordSize : Nat) else (n % wordSize : Nat) - (wordSize : Nat)

/-- The bytes of a 32-bit word in memory, lowest first. -/
def wordBytes (n : Nat) : List UInt8 :=
  [n, n / 0x100, n / 0x10000, n / 0x1000000].map UInt8.ofNat

theorem wrap32_of_lt {n : Nat} (h : n < wordSize) : wrap32 n = n :=
  Nat.mod_eq_of_lt h

theorem wrap32_lt (n : Nat) : wrap32 n < wordSize :=
  Nat.mod_lt _ (by decide)

theorem sub32_of_le {a b : Nat} (hb : b ≤ a) (ha : a < wordSize) : sub32 a b = a - b := by
  unfold sub32
  rw [Nat.mod_eq_of_lt (show b < wordSize by omega),
    show a + (wordSize - b) = (a - b) + wordSize by omega, Nat.add_mod_right,
    Nat.mod_eq_of_lt (by omega)]

theorem toInt32_of_lt {n : Nat} (h : n < 2 ^ 31) : toInt32 n = n := by
  have hw : n % wordSize = n := Nat.mod_eq_of_lt (by unfold wordSize; omega)
  rw [toInt32, hw, if_pos h]

def pageSize : Nat := 0x1000

def pageAlignDown (n : Nat) : Nat := n - n % pageSize

/-- `PAGE_ALIGN_UP`, in 32 bits. -/
def pageAlignUp (n : Nat) : Nat :=
  if n % pageSize = 0 then n else wrap32 (pageAlignDown n + pageSize)

theorem pageAlignDown_mod (n : Nat) : pageAlignDown n % pageSize = 0 := by
  unfold pageAlignDown pageSize
  omega

theorem pageAlignUp_mod (n : Nat) : pageAlignUp n % pageSize = 0 := by
  unfold pageAlignUp wrap32 pageAlignDown pageSize wordSize
  split
  · assumption
  · omega

end Kernel
