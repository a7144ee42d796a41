import Mathlib.Data.List.Basic
import Mathlib.Tactic.Ring

/-! How the logger writes numbers, and that what it writes is read back as the number. -/
namespace Kernel.Logger

def digitCharacters : List Char :=
  ['0', '1', '2', '3', '4', '5', '6', '7', '8', '9', 'A', 'B', 'C', 'D', 'E', 'F']

/-- The characters from the lowest digit up, in a buffer with so much room. -/
def reversedDigits (base : Nat) : Nat → Nat → Option (List Char)
  | 0, _ => none
  | room + 1, number => do
    let character ← digitCharacters[number % base]?
    if number / base = 0 then return [character]
    return character :: (← reversedDigits base room (number / base))

def printPlain (message : List Char) : List Char := message.takeWhile (· ≠ '\x00')

def printNumber (number : BitVec 32) (base : Nat) : Option (List Char) := do
  let negative := base = 10 ∧ number.toInt < 0
  let magnitude := if negative then -number else number
  let revbuf ← reversedDigits base 32 magnitude.toNat
  let revbuf := if base = 16 then revbuf ++ List.replicate (8 - revbuf.length) '0' else revbuf
  let buf := printPlain (revbuf.reverse ++ ['\x00'])
  return if negative then '-' :: buf else buf

/-- The number that is written with these digits, if all are digits in the base. -/
def readDigits (base : Nat) (characters : List Char) : Option Nat :=
  characters.foldlM (fun value character =>
    (digitCharacters.idxOf? character).bind fun digit =>
      if digit < base then some (value * base + digit) else none) 0

/-- No digit is missing, and the first one is zero only if it is the only one. -/
structure Plain (characters : List Char) : Prop where
  nonempty : characters ≠ []
  leading : characters.head? = some '0' → characters = ['0']

/-- A decimal number is read with its sign. -/
def readDecimal (characters : List Char) : Option Int :=
  if characters.head? = some '-' then (readDigits 10 characters.tail).map (-Int.ofNat ·)
  else (readDigits 10 characters).map Int.ofNat

variable {base n : Nat}

theorem digit_character (hBase : base ≤ 16) (hn : n < base) : ∃ character,
    digitCharacters[n]? = some character ∧ digitCharacters.idxOf? character = some n ∧
      character ≠ '\x00' ∧ character ≠ '-' := by
  have hAll : ∀ n : Fin digitCharacters.length,
      digitCharacters.idxOf? (digitCharacters.get n) = some n.1 ∧
        digitCharacters.get n ≠ '\x00' ∧ digitCharacters.get n ≠ '-' := by
    decide
  have hLength : n < digitCharacters.length := hn.trans_le hBase
  exact ⟨_, List.getElem?_eq_some_iff.mpr ⟨hLength, rfl⟩, hAll ⟨n, hLength⟩⟩

theorem readDigits_concat {characters : List Char} {value : Nat} {character : Char}
    (h : readDigits base characters = some value)
    (hCharacter : digitCharacters.idxOf? character = some n) (hn : n < base) :
    readDigits base (characters ++ [character]) = some (value * base + n) := by
  unfold readDigits at *
  rw [List.foldlM_append, h]
  simp [hCharacter, hn]

/-- Zeros in front of a number do not count. -/
theorem readDigits_padded (hBase : 0 < base) (characters : List Char) (zeros : Nat) :
    readDigits base (List.replicate zeros '0' ++ characters) = readDigits base characters := by
  induction zeros with
  | zero => rfl
  | succ zeros ih =>
    have hZero : digitCharacters.idxOf? '0' = some 0 := by decide
    rw [← ih, readDigits, List.replicate_succ, List.cons_append, List.foldlM_cons, hZero]
    simp [hBase, readDigits]

theorem printPlain_terminated {characters : List Char} (h : ∀ c ∈ characters, c ≠ '\x00') :
    printPlain (characters ++ ['\x00']) = characters := by
  rw [printPlain, List.takeWhile_append_of_pos (by simpa using h)]
  simp

/-- A buffer with room for as many digits as the number has holds them after the loop. -/
theorem reversedDigits_spec (hTwo : 2 ≤ base) (hBase : base ≤ 16) {number count room : Nat}
    (h : number < base ^ (count + 1)) (hRoom : count < room) :
    ∃ characters, reversedDigits base room number = some characters ∧
      characters.length ≤ count + 1 ∧ readDigits base characters.reverse = some number ∧
      (∀ c ∈ characters, c ≠ '\x00' ∧ c ≠ '-') ∧ Plain characters.reverse := by
  induction room generalizing number count with
  | zero => omega
  | succ room ih =>
    obtain ⟨c, hc, hRead, hPrinted, hSign⟩ :=
      digit_character hBase (Nat.mod_lt number (by omega : 0 < base))
    rw [reversedDigits, hc, Option.bind_eq_bind, Option.bind_some]
    by_cases hLast : number / base = 0
    · have hNumber : number % base = number := Nat.mod_eq_of_lt (by
        rwa [Nat.div_eq_zero_iff_lt (by omega)] at hLast)
      have hEmpty : readDigits base [] = some 0 := rfl
      rw [if_pos hLast]
      refine ⟨[c], rfl, by simp, ?_, by simp [hPrinted, hSign], by simp, by simp⟩
      rw [List.reverse_singleton, ← List.nil_append [c],
        readDigits_concat hEmpty hRead (Nat.mod_lt _ (by omega)), hNumber, Nat.zero_mul,
        Nat.zero_add]
    · rw [if_neg hLast]
      obtain _ | count := count
      · rw [Nat.zero_add, pow_one] at h
        exact absurd (Nat.div_eq_of_lt h) hLast
      · obtain ⟨rest, hRest, hLength, hValue, hAll, hPlain⟩ := ih
          (Nat.div_lt_of_lt_mul (by rwa [pow_succ'] at h)) (Nat.lt_of_succ_lt_succ hRoom)
        rw [hRest]
        refine ⟨c :: rest, rfl, by simpa using hLength, ?_,
          List.forall_mem_cons.mpr ⟨⟨hPrinted, hSign⟩, hAll⟩, ?_, ?_⟩
        · rw [List.reverse_cons, readDigits_concat hValue hRead (Nat.mod_lt _ (by omega)),
            Nat.div_add_mod']
        · simp
        · intro hHead
          rw [List.reverse_cons, List.head?_append_of_ne_nil _ hPlain.nonempty] at hHead
          rw [hPlain.leading hHead] at hValue
          exact absurd (Option.some.inj
            ((readDigits_padded (by omega) [] 1).symm.trans hValue)).symm hLast

/-- What the logger writes in base 16 and in base 10 is read back as the number, with eight
digits and without superfluous zeros. -/
theorem printNumber_reads_back (number : BitVec 32) :
    (∃ digits, printNumber number 16 = some digits ∧ digits.length = 8 ∧
      readDigits 16 digits = some number.toNat) ∧
    ∃ digits, Plain digits ∧ readDecimal (if number.toInt < 0 then '-' :: digits else digits) =
        some number.toInt ∧
      printNumber number 10 = some (if number.toInt < 0 then '-' :: digits else digits) := by
  constructor
  · have hSmall : number.toNat < 16 ^ (7 + 1) := number.isLt
    obtain ⟨revbuf, hLoop, hLength, hValue, hAll, -⟩ :=
      reversedDigits_spec (by omega) le_rfl hSmall (show 7 < 32 by omega)
    have hPrinted : ∀ c ∈ List.replicate (8 - revbuf.length) '0' ++ revbuf.reverse,
        c ≠ '\x00' := by
      simp only [List.mem_append, List.mem_replicate, List.mem_reverse]
      rintro c (⟨-, rfl⟩ | hc)
      · decide
      · exact (hAll c hc).1
    refine ⟨List.replicate (8 - revbuf.length) '0' ++ revbuf.reverse, ?_, ?_, ?_⟩
    · simp [printNumber, hLoop, -List.append_assoc, printPlain_terminated hPrinted]
    · rw [List.length_append, List.length_replicate, List.length_reverse]
      omega
    · rw [readDigits_padded (by omega), hValue]
  · have hSmall : (if number.toInt < 0 then -number else number).toNat < 10 ^ (9 + 1) :=
      (BitVec.isLt _).trans (by decide)
    obtain ⟨revbuf, hLoop, -, hValue, hAll, hPlain⟩ :=
      reversedDigits_spec (by omega) (by omega) hSmall (show 9 < 32 by omega)
    refine ⟨revbuf.reverse, hPlain, ?_, ?_⟩
    · have hInt := BitVec.toInt_eq_toNat_cond number
      have hWord := number.isLt
      by_cases hNegative : number.toInt < 0
      · rw [if_pos hNegative] at hValue ⊢
        rw [readDecimal, if_pos List.head?_cons, List.tail_cons, hValue, BitVec.toNat_neg]
        simp only [Option.map_some, Int.ofNat_eq_natCast, Option.some.injEq]
        split_ifs at hInt <;> omega
      · have hSign : revbuf.reverse.head? ≠ some '-' := fun hHead =>
          (hAll _ (List.mem_reverse.mp (List.mem_of_mem_head? hHead))).2 rfl
        rw [if_neg hNegative] at hValue ⊢
        rw [readDecimal, if_neg hSign, hValue]
        simp only [Option.map_some, Int.ofNat_eq_natCast, Option.some.injEq]
        split_ifs at hInt <;> omega
    · have hPrinted : ∀ c ∈ revbuf.reverse, c ≠ '\x00' := fun c hc =>
        (hAll c (List.mem_reverse.mp hc)).1
      simp [printNumber, hLoop, printPlain_terminated hPrinted]

end Kernel.Logger
