import JsonPull.Number.Numeral
import JsonPull.Number.Power

/-! # Binary numbers of double precision

A number is kept as its 64 bits: a sign, an exponent of 11 bits and a fraction of 52 bits. A
numeral is rounded to the nearest such number in exact arithmetic, and halfway to the one whose
last bit is zero. -/

namespace JsonPull.Number

/-- A number of the IEEE binary64 format, by its bits. -/
structure Double where
  bits : UInt64
deriving DecidableEq, Repr

namespace Double

/-- The bits of infinity; every larger magnitude is not a number. -/
def infinityBits : Nat := 0x7FF0000000000000

/-- The number with a sign and the bits of a magnitude. -/
def ofMagnitude (negative : Bool) (magnitude : Nat) : Double :=
  ⟨UInt64.ofNat (if negative then magnitude + twoPow 63 else magnitude)⟩

def nan : Double := ⟨0x7FF8000000000000⟩

def infinity (negative : Bool) : Double := ofMagnitude negative infinityBits

/-- The bits without the sign. -/
def magnitude (x : Double) : Nat := x.bits.toNat % twoPow 63

def isNaN (x : Double) : Bool := infinityBits < x.magnitude

/-- Zero of either sign. -/
def isZero (x : Double) : Bool := x.magnitude == 0

/-- `num / den` rounded to the nearest integer, halfway to the even one. -/
def roundEven (num den : Nat) : Nat :=
  let q := num / den
  let r := num % den
  if 2 * r < den then q
  else if den < 2 * r then q + 1
  else if q % 2 = 0 then q else q + 1

/-- The integer `e` with `2 ^ e ≤ num / den < 2 ^ (e + 1)`, for positive arguments. -/
def binade (num den : Nat) : Int :=
  let e : Int := (num.log2 : Int) - den.log2
  if den * twoPow e.toNat ≤ num * twoPow (-e).toNat then e else e - 1

/-- The bits of the magnitude nearest to `num / den`. The unit of the last place is `2 ^ e`, where
`e` is never below the exponent of the subnormal numbers. A carry out of the fraction raises the
exponent field by one, so that the sum below needs no case for it. -/
def nearestBits (num den : Nat) : Nat :=
  if num = 0 then 0
  else
    let e := max (binade num den - 52) (-1074)
    let fraction := roundEven (num * twoPow (-e).toNat) (den * twoPow e.toNat)
    min ((e + 1074).toNat * twoPow 52 + fraction) infinityBits

/-- The number nearest to a numeral. A numeral beyond the powers of ten tried here is infinite or
zero whatever its digits are. -/
def ofNumeral (x : Numeral) : Double :=
  if x.coefficient = 0 then ofMagnitude x.negative 0
  else if 400 < x.exponent then infinity x.negative
  else if x.exponent + x.coefficient.log2 < -400 then ofMagnitude x.negative 0
  else
    ofMagnitude x.negative
      (nearestBits (x.coefficient * tenPow x.exponent.toNat) (tenPow (-x.exponent).toNat))

/-- The number nearest to an integer; zero is positive. -/
def ofInt (n : Int) : Double :=
  ofMagnitude (decide (n < 0)) (nearestBits n.natAbs 1)

/-- The number that a numeral writes. -/
def ofBytes? (bytes : List UInt8) : Option Double :=
  (Numeral.ofBytes? bytes).map ofNumeral

theorem roundEven_one (n : Nat) : roundEven n 1 = n := by
  simp [roundEven, Nat.mod_one]

/-- A rounded quotient is one of its two integer neighbours. -/
theorem roundEven_bounds (num den : Nat) :
    num / den ≤ roundEven num den ∧ roundEven num den ≤ num / den + 1 := by
  simp only [roundEven]
  split
  · omega
  · split
    · omega
    · split <;> omega

end Double

end JsonPull.Number
