import JsonPull.Number.Digits
import JsonPull.Number.Power

/-! # Decimal numbers of 96 bits

A coefficient of at most 96 bits with a sign, and a scale that counts its digits after the point.
Trailing zeros are kept. Digits that do not fit are rounded away, halves upwards. -/

namespace JsonPull.Number

/-- The number `coefficient / 10 ^ scale`. -/
structure Decimal where
  coefficient : Int
  scale : Nat
  coefficient_lt : coefficient.natAbs < twoPow 96
  scale_le : scale ≤ 28
deriving DecidableEq

namespace Decimal

/-- The greatest number of digits after the point. -/
def maxScale : Nat := 28

/-- The number with this coefficient and scale, if both are in range. -/
def of? (negative : Bool) (coefficient scale : Nat) : Option Decimal :=
  if h : coefficient < twoPow 96 ∧ scale ≤ maxScale then
    some {
      coefficient := if negative then -(coefficient : Int) else coefficient
      scale
      coefficient_lt := by split <;> simpa using h.1
      scale_le := h.2 }
  else none

/-- An integer, if it has at most 96 bits. -/
def ofInt? (n : Int) : Option Decimal :=
  of? (decide (n < 0)) n.natAbs 0

def isZero (x : Decimal) : Bool := x.coefficient == 0

/-- Cuts the digits off before `digit`: from five on the last one kept goes up by one. Where this
takes the coefficient out of its range, it gives up one digit more. -/
def roundAt (coefficient scale digit : Nat) : Option (Nat × Nat) :=
  if digit < 5 then some (coefficient, scale)
  else if coefficient + 1 < twoPow 96 then some (coefficient + 1, scale)
  else if scale = 0 then none
  else some ((coefficient + 1 + 4) / 10, scale - 1)

/-- Appends digits after the point while they fit. -/
def appendFraction (coefficient scale : Nat) : List UInt8 → Option (Nat × Nat)
  | [] => some (coefficient, scale)
  | b :: rest =>
    let digit := b.toNat - 0x30
    if scale < maxScale ∧ 10 * coefficient + digit < twoPow 96 then
      appendFraction (10 * coefficient + digit) (scale + 1) rest
    else roundAt coefficient scale digit

/-- A number without an exponent: at most one sign, then digits with at most one point. -/
def ofPlain? (bytes : List UInt8) : Option Decimal :=
  let (negative, unsigned) :=
    match bytes with
    | 0x2D :: rest => (true, rest)
    | 0x2B :: rest => (false, rest)
    | _ => (false, bytes)
  let whole := unsigned.takeWhile isDigit
  let fraction? :=
    match unsigned.dropWhile isDigit with
    | [] => some []
    | 0x2E :: fraction => if fraction.all isDigit then some fraction else none
    | _ => none
  fraction?.bind fun fraction =>
    if whole.isEmpty && fraction.isEmpty then none
    else if twoPow 96 ≤ ofDecimalDigits whole then none
    else (appendFraction (ofDecimalDigits whole) 0 fraction).bind fun (coefficient, scale) =>
      of? negative coefficient scale

/-- `x` divided by `10 ^ n`; the scale takes up the power. -/
def scaleDown? (x : Decimal) (n : Nat) : Option Decimal :=
  if n ≤ maxScale then of? (decide (x.coefficient < 0)) x.coefficient.natAbs (x.scale + n) else none

/-- `x` times `10 ^ n`. The scale goes down first; what is left of the power multiplies the
coefficient. -/
def scaleUp? (x : Decimal) (n : Nat) : Option Decimal :=
  if n ≤ x.scale then of? (decide (x.coefficient < 0)) x.coefficient.natAbs (x.scale - n)
  else if n ≤ maxScale then
    of? (decide (x.coefficient < 0)) (x.coefficient.natAbs * tenPow (n - x.scale)) 0
  else none

/-- The power of ten of an exponent: 32 bits at most, after at most one plus sign. -/
def power? (bytes : List UInt8) : Option Nat :=
  (ofUnsigned? 10 bytes).filter (· < twoPow 32)

def isExponentMark (b : UInt8) : Bool := b == 0x65 || b == 0x45

/-- The number that a numeral writes. A minus sign of the exponent may have a plus sign after
it. -/
def ofBytes? (bytes : List UInt8) : Option Decimal :=
  match bytes.dropWhile (!isExponentMark ·) with
  | [] => ofPlain? bytes
  | _ :: exponent =>
    (ofPlain? (bytes.takeWhile (!isExponentMark ·))).bind fun base =>
      match exponent with
      | 0x2D :: digits => (power? digits).bind base.scaleDown?
      | _ => (power? exponent).bind base.scaleUp?

/-- Decimal digits with a point before the last `scale` of them. Zero has no sign. -/
def toText (x : Decimal) : String :=
  let digits := Nat.toDigits 10 x.coefficient.natAbs
  let padded := List.replicate (x.scale + 1 - digits.length) '0' ++ digits
  let whole := padded.take (padded.length - x.scale)
  let fraction := padded.drop (padded.length - x.scale)
  String.ofList ((if x.coefficient < 0 then ['-'] else []) ++ whole ++
    (if x.scale = 0 then [] else '.' :: fraction))

end Decimal

end JsonPull.Number
