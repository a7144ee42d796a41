import Mathlib

/-! Bytes in a memory. An image is a list of bytes that lies there from some address on and is
read part by part. The second half is about numbers with their lowest byte first. -/
namespace Base

section Slice

variable {Byte : Type*} (memory : Nat → Byte)

def slice (address : Nat) : (count : Nat) → List Byte
  | 0 => []
  | count + 1 => memory address :: slice (address + 1) count

/-- The memory has the bytes of the image at the address. -/
def Holds (address : Nat) (image : List Byte) : Prop :=
  slice memory address image.length = image

instance [DecidableEq Byte] (address : Nat) (image : List Byte) : Decidable (Holds memory address image) :=
  inferInstanceAs (Decidable (_ = _))

variable {memory} {address : Nat}

@[simp] theorem length_slice (memory : Nat → Byte) (address count : Nat) :
    (slice memory address count).length = count := by
  induction count generalizing address with
  | zero => rfl
  | succ count ih => simp [slice, ih]

theorem slice_add (memory : Nat → Byte) (address first second : Nat) :
    slice memory address (first + second) =
      slice memory address first ++ slice memory (address + first) second := by
  induction first generalizing address with
  | zero => simp [slice]
  | succ first ih =>
    rw [show first + 1 + second = first + second + 1 by omega]
    simp [slice, ih, show address + 1 + first = address + (first + 1) by omega]

theorem getElem?_slice {count i : Nat} (h : i < count) :
    (slice memory address count)[i]? = some (memory (address + i)) := by
  induction count generalizing address i with
  | zero => omega
  | succ count ih =>
    cases i with
    | zero => rfl
    | succ i =>
      rw [slice, List.getElem?_cons_succ, ih (by omega)]
      rw [show address + 1 + i = address + (i + 1) by omega]

theorem Holds.nil : Holds memory address [] := rfl

theorem holds_cons {byte : Byte} {image : List Byte} :
    Holds memory address (byte :: image) ↔ memory address = byte ∧ Holds memory (address + 1) image := by
  simp [Holds, slice]

/-- The parts of an image lie one behind the other. -/
theorem holds_append {first second : List Byte} : Holds memory address (first ++ second) ↔
      Holds memory address first ∧ Holds memory (address + first.length) second := by
  unfold Holds
  rw [List.length_append, slice_add]
  constructor
  · intro h
    exact List.append_inj h (length_slice ..)
  · rintro ⟨hFirst, hSecond⟩
    rw [hFirst, hSecond]

theorem Holds.congr {other : Nat → Byte} {image : List Byte} (h : Holds memory address image)
    (hSame : ∀ i < image.length, other (address + i) = memory (address + i)) :
    Holds other address image := by
  induction image generalizing address with
  | nil => exact Holds.nil
  | cons byte image ih =>
    obtain ⟨hByte, hRest⟩ := holds_cons.mp h
    refine holds_cons.mpr ⟨(hSame 0 (by simp)).trans hByte, ih hRest fun i hi => ?_⟩
    have hShift := hSame (i + 1) (by simpa using hi)
    rwa [show address + (i + 1) = address + 1 + i by omega] at hShift

end Slice

section LittleEndian

/-- The number that is stored in the bytes. -/
def littleEndian : List UInt8 → Nat
  | [] => 0
  | byte :: rest => byte.toNat + 0x100 * littleEndian rest

def littleEndianBytes : (count : Nat) → Nat → List UInt8
  | 0, _ => []
  | count + 1, n => UInt8.ofNat n :: littleEndianBytes count (n / 0x100)

theorem littleEndian_bytes {count n : Nat} (h : n < 0x100 ^ count) :
    littleEndian (littleEndianBytes count n) = n := by
  induction count generalizing n with
  | zero =>
    rw [Nat.pow_zero] at h
    simp only [littleEndianBytes, littleEndian]
    omega
  | succ count ih =>
    have hRest : n / 0x100 < 0x100 ^ count := by
      rw [Nat.pow_succ] at h
      exact Nat.div_lt_of_lt_mul (by rwa [Nat.mul_comm] at h)
    simp only [littleEndianBytes, littleEndian, ih hRest, UInt8.toNat_ofNat']
    omega

end LittleEndian

end Base
