import Mathlib.Logic.Function.Iterate
import Mathlib.Logic.Relation
import MeetiX.Kernel.Types

/-! The time driver: it reads the clock through the ports of the CMOS once and counts the
seconds by itself from then on. -/
namespace TimeDriver

open Kernel Relation

/-- The registers of the clock that a pass of `readRTC` reads. -/
structure Registers where
  second : UInt8
  minute : UInt8
  hour : UInt8
  day : UInt8
  month : UInt8
  year : UInt8
  deriving DecidableEq

/-- The answer to `GET_TIME`. -/
structure TimeDriverCall where
  second : Nat
  minute : Nat
  hour : Nat
  day : Nat
  month : Nat
  year : Nat
  deriving DecidableEq

/-- `TIME`; the century is never read. -/
structure Time extends TimeDriverCall where
  upSecond : Nat

/-- The loop on `getUpdateInProgressFlag`, over the bytes that the data port delivers. At most
so many rounds are waited for. -/
def waitForUpdate (port : Nat → UInt8) : (rounds reads : Nat) → Option Nat
  | 0, _ => none
  | rounds + 1, reads =>
    if port reads &&& 0x80 = 0 then some (reads + 1) else waitForUpdate port rounds (reads + 1)

def readPass (port : Nat → UInt8) (rounds reads : Nat) : Option (Registers × Nat) :=
  (waitForUpdate port rounds reads).map fun reads =>
    (⟨port reads, port (reads + 1), port (reads + 2), port (reads + 3), port (reads + 4),
      port (reads + 5)⟩, reads + 6)

/-- The reading loop, with the registers of the pass before and of the last one. -/
def readLoop (port : Nat → UInt8) (rounds : Nat) :
    (fuel : Nat) → Registers × Nat → Option (Registers × Registers × Nat)
  | 0, _ => none
  | fuel + 1, (last, reads) => do
    let (current, reads) ← readPass port rounds reads
    if last = current then readLoop port rounds fuel (current, reads)
    else return (last, current, reads)

def fromBcd (value : Nat) : Nat := value % 16 + value / 16 * 10

/-- What `readRTC` makes of the registers. The hour of a clock with twelve hours stays as it
is, as the test looks at a variable that is never set. -/
def convert (registerB : UInt8) (r : Registers) : TimeDriverCall :=
  let year := fun year => if 2000 + year < 2016 then 2100 + year else 2000 + year
  if registerB &&& 0x04 = 0 then
    ⟨fromBcd r.second.toNat, fromBcd r.minute.toNat,
      fromBcd (r.hour &&& 0x7F).toNat ||| (r.hour &&& 0x80).toNat, fromBcd r.day.toNat,
      fromBcd r.month.toNat, year (fromBcd r.year.toNat)⟩
  else ⟨r.second.toNat, r.minute.toNat, r.hour.toNat, r.day.toNat, r.month.toNat, year r.year.toNat⟩

/-- How `readRTC` leaves its loop, and the time it sets. -/
structure Reading where
  last : Registers
  used : Registers
  time : TimeDriverCall
  deriving DecidableEq

def readRTC (port : Nat → UInt8) (rounds fuel : Nat) : Option Reading := do
  let first ← readPass port rounds 0
  let (last, used, reads) ← readLoop port rounds fuel first
  return ⟨last, used, convert (port reads) used⟩

def Next (port : Nat → UInt8) (rounds : Nat) (pass next : Registers × Nat) : Prop :=
  readPass port rounds pass.2 = some next

section Reading

variable {port : Nat → UInt8} {rounds : Nat} {pass : Registers × Nat}

theorem readLoop_ne {fuel : Nat} {outcome : Registers × Registers × Nat}
    (h : readLoop port rounds fuel pass = some outcome) : outcome.1 ≠ outcome.2.1 := by
  induction fuel generalizing pass with
  | zero => cases h
  | succ fuel ih =>
    obtain ⟨next, -, h⟩ := Option.bind_eq_some_iff.mp h
    dsimp only at h
    split_ifs at h with hSame
    · exact ih h
    · cases h
      exact hSame

/-- The loop goes on for ever just if no pass that it comes to differs from the one before. -/
theorem readLoop_eq_none_iff : (∀ fuel, readLoop port rounds fuel pass = none) ↔
    ∀ reached, ReflTransGen (Next port rounds) pass reached →
      ∀ next, Next port rounds reached next → next.1 = reached.1 := by
  have hStep : ∀ {pass next : Registers × Nat}, Next port rounds pass next → ∀ fuel,
      readLoop port rounds (fuel + 1) pass = if pass.1 = next.1 then
        readLoop port rounds fuel next else some (pass.1, next.1, next.2) := by
    intro pass next hNext fuel
    rw [readLoop, show readPass port rounds pass.2 = some next from hNext]
    rfl
  constructor
  · intro hNone reached hReach
    have hNone : ∀ fuel, readLoop port rounds fuel reached = none := by
      induction hReach with
      | refl => exact hNone
      | tail _ hNext ih =>
        intro fuel
        have hBefore := ih (fuel + 1)
        rw [hStep hNext] at hBefore
        split_ifs at hBefore
        exact hBefore
    intro next hNext
    have hOne := hNone 1
    rw [hStep hNext] at hOne
    split_ifs at hOne with hSame
    exact hSame.symm
  · intro hSame fuel
    induction fuel generalizing pass with
    | zero => rfl
    | succ fuel ih =>
      cases hPass : readPass port rounds pass.2 with
      | none => rw [readLoop, hPass]; rfl
      | some next =>
        have hNext : Next port rounds pass next := hPass
        rw [hStep hNext, if_pos (hSame pass .refl next hNext).symm]
        exact ih fun reached hReach => hSame reached (.head hNext hReach)

/-- The registers in use were read twice in a row just if the loop is never left, as every
pass delivers what the one before has delivered. -/
theorem readRTC_consistent_iff (port : Nat → UInt8) (rounds : Nat) :
    (∀ fuel reading, readRTC port rounds fuel = some reading → reading.last = reading.used) ↔
      ∀ first, readPass port rounds 0 = some first →
        ∀ reached, ReflTransGen (Next port rounds) first reached →
          ∀ next, Next port rounds reached next → next.1 = reached.1 := by
  cases hFirst : readPass port rounds 0 with
  | none => simp [readRTC, hFirst]
  | some first =>
    simp only [Option.some.injEq, forall_eq', ← readLoop_eq_none_iff]
    refine forall_congr' fun fuel => ?_
    cases hLoop : readLoop port rounds fuel first with
    | none => simp [readRTC, hFirst, hLoop]
    | some outcome => simpa [readRTC, hFirst, hLoop] using readLoop_ne hLoop

/-- A clock that shows one second more in the second pass, which is taken. -/
theorem readRTC_inconsistent : readRTC (fun reads => if reads = 8 then 1 else 0) 1 1 =
      some ⟨⟨0, 0, 0, 0, 0, 0⟩, ⟨1, 0, 0, 0, 0, 0⟩, ⟨1, 0, 0, 0, 0, 2100⟩⟩ := by
  decide

end Reading

/-- A round of the loop of `timer`. -/
def Time.tick (t : Time) : Time :=
  let t := { t with second := wrap32 (t.second + 1), upSecond := (t.upSecond + 1) % 2 ^ 16 }
  if t.second > 59 then
    let t := { t with second := 0, minute := wrap32 (t.minute + 1) }
    if t.minute > 59 then { t with minute := 0, hour := wrap32 (t.hour + 1) } else t
  else t

def TimeDriverCall.Valid (t : TimeDriverCall) : Prop :=
  t.second < 60 ∧ t.minute < 60 ∧ t.hour < 24

def TimeDriverCall.secondOfDay (t : TimeDriverCall) : Nat :=
  t.hour * 3600 + t.minute * 60 + t.second

section Ticks

variable {t : Time}

theorem Time.tick_spec (h : t.Valid) : t.tick.secondOfDay = t.secondOfDay + 1 ∧
    (t.tick.Valid ↔ t.secondOfDay + 1 < 86400) := by
  obtain ⟨hSecond, hMinute, hHour⟩ := h
  have hWrap : ∀ n, n < 60 → wrap32 (n + 1) = n + 1 := fun n hn =>
    wrap32_of_lt (by unfold wordSize; omega)
  simp only [tick, TimeDriverCall.Valid, TimeDriverCall.secondOfDay, hWrap _ hSecond,
    hWrap _ hMinute, hWrap t.hour (by omega)]
  split_ifs <;> dsimp only <;> omega

theorem Time.ticks_spec (h : t.Valid) {n : Nat} (hDay : t.secondOfDay + n < 86400) :
    (tick^[n] t).Valid ∧ (tick^[n] t).secondOfDay = t.secondOfDay + n := by
  induction n with
  | zero => exact ⟨h, (Nat.add_zero _).symm⟩
  | succ n ih =>
    obtain ⟨hValid, hEq⟩ := ih (by omega)
    obtain ⟨hNext, hIff⟩ := tick_spec hValid
    rw [Function.iterate_succ_apply', hIff, hNext, hEq]
    omega

/-- The time that is served is right up to a number of ticks just if midnight does not come
before. -/
theorem served_time_iff (start : Time) (h : start.Valid) (n : Nat) :
    (∀ k ≤ n, (Time.tick^[k] start).Valid ∧ (Time.tick^[k] start).secondOfDay =
      (start.secondOfDay + k) % 86400) ↔ start.secondOfDay + n < 86400 := by
  constructor
  · intro hServed
    by_contra hLate
    obtain ⟨k, hk⟩ : ∃ k, start.secondOfDay + k + 1 = 86400 := by
      obtain ⟨hSecond, hMinute, hHour⟩ := h
      unfold TimeDriverCall.secondOfDay at *
      exact ⟨86399 - (start.hour * 3600 + start.minute * 60 + start.second), by omega⟩
    obtain ⟨hValid, hEq⟩ := Time.ticks_spec h (n := k) (by omega)
    have hNext := (hServed (k + 1) (by omega)).1
    rw [Function.iterate_succ_apply', (Time.tick_spec hValid).2] at hNext
    omega
  · intro hDay k hk
    obtain ⟨hValid, hEq⟩ := Time.ticks_spec h (n := k) (by omega)
    rw [hEq, Nat.mod_eq_of_lt (by omega)]
    exact ⟨hValid, rfl⟩

/-- One second before midnight is the last time that is right. -/
def lateEvening : Time := ⟨⟨58, 59, 23, 1, 1, 2018⟩, 0⟩

theorem served_time_iff_evening : lateEvening.Valid ∧ (∀ k ≤ 1, (Time.tick^[k] lateEvening).Valid ∧
    (Time.tick^[k] lateEvening).secondOfDay = (lateEvening.secondOfDay + k) % 86400) :=
  have h : lateEvening.Valid := ⟨by decide, by decide, by decide⟩
  ⟨h, (served_time_iff lateEvening h 1).mpr (by decide)⟩

/-- At midnight the hour becomes 24. -/
theorem served_hour_24 : (Time.tick^[2] lateEvening).hour = 24 := by
  decide

end Ticks

end TimeDriver
