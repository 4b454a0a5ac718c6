/-! # Calendar

Days and instants of the proleptic Gregorian calendar. An instant counts seconds from the start of
1970, so that times before it are negative, and nanoseconds upwards from a whole second. -/

namespace JsonPull

/-- A point in time, or a local time read as if its place were at zero offset. -/
structure Instant where
  seconds : Int
  nanos : Nat
deriving DecidableEq, Repr

namespace Calendar

def isLeapYear (year : Nat) : Bool :=
  year % 4 = 0 && (year % 100 ≠ 0 || year % 400 = 0)

def daysInMonth (year month : Nat) : Nat :=
  match month with
  | 2 => if isLeapYear year then 29 else 28
  | 4 | 6 | 9 | 11 => 30
  | _ => 31

/-- Days from the start of year 0 to the start of `year`. -/
def daysBeforeYear (year : Nat) : Nat :=
  365 * year + (year + 3) / 4 - (year + 99) / 100 + (year + 399) / 400

/-- Days from the start of `year` to the start of its `month`. -/
def daysBeforeMonth (year : Nat) : Nat → Nat
  | 0 | 1 => 0
  | month + 2 => daysBeforeMonth year (month + 1) + daysInMonth year (month + 1)

/-- Days from the start of year 0 to the start of 1970. -/
def daysBeforeEpoch : Nat := 719528

/-- A date and a time of day without a place. -/
structure Local where
  year : Nat
  month : Nat
  day : Nat
  hour : Nat
  minute : Nat
  second : Nat
  nanos : Nat
deriving DecidableEq, Repr

/-- Whether each field is within its bounds. There is no leap second. -/
def Local.isValid (t : Local) : Bool :=
  1 ≤ t.month && t.month ≤ 12 && 1 ≤ t.day && t.day ≤ daysInMonth t.year t.month &&
    t.hour ≤ 23 && t.minute ≤ 59 && t.second ≤ 59 && t.nanos < 1000000000

/-- The instant of a local time at zero offset. -/
def Local.instant (t : Local) : Instant :=
  let days : Int := (daysBeforeYear t.year + daysBeforeMonth t.year t.month + (t.day - 1) : Nat) -
    (daysBeforeEpoch : Int)
  { seconds := days * 86400 + (t.hour * 3600 + t.minute * 60 + t.second : Nat), nanos := t.nanos }

/-- The instant of a count of milliseconds. -/
def ofMillis (millis : Int) : Instant :=
  { seconds := millis.fdiv 1000, nanos := (millis.fmod 1000).toNat * 1000000 }

theorem daysBeforeEpoch_eq : daysBeforeEpoch = daysBeforeYear 1970 := rfl

theorem daysBeforeYear_zero : daysBeforeYear 0 = 0 := rfl

/-- Counting the multiples of `n` below a number goes up exactly at a multiple. -/
theorem multiples_succ (n year : Nat) (h : 0 < n) :
    (year + 1 + (n - 1)) / n = (year + (n - 1)) / n + if year % n = 0 then 1 else 0 := by
  rw [show year + 1 + (n - 1) = year + n by omega, Nat.add_div_right year h]
  have hd := Nat.div_add_mod year n
  have hm := Nat.mod_lt year h
  split
  · rename_i hz
    have : (year + (n - 1)) / n = year / n := by
      rw [Nat.div_eq_iff h]
      constructor <;> rw [Nat.mul_comm] <;> omega
    omega
  · have : (year + (n - 1)) / n = year / n + 1 := by
      rw [Nat.div_eq_iff h]
      constructor <;> rw [Nat.add_mul, Nat.mul_comm] <;> omega
    omega

end Calendar

/-- A date as it was written: a local time of an unknown place, an instant, or an instant with the
offset it was written in, in seconds to the east. -/
inductive Timestamp where
  | unspecified (instant : Instant)
  | utc (instant : Instant)
  | offset (instant : Instant) (east : Int)
deriving DecidableEq, Repr

end JsonPull
