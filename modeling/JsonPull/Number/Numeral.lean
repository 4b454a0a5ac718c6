import JsonPull.Number.Digits

/-! # Decimal numerals

A numeral is a coefficient times a power of ten. Its spelling has digits with at most one point
among or around them, an optional sign before and an optional exponent after. -/

namespace JsonPull.Number

/-- The number `± coefficient · 10 ^ exponent`. -/
structure Numeral where
  negative : Bool
  coefficient : Nat
  exponent : Int
deriving DecidableEq, Repr

namespace Numeral

/-- Splits off at most one sign; true for a minus. -/
def splitSign (bytes : List UInt8) : Bool × List UInt8 :=
  match bytes with
  | 0x2D :: rest => (true, rest)
  | 0x2B :: rest => (false, rest)
  | _ => (false, bytes)

/-- The digits before the point, the digits after it, and what follows them. -/
def splitDigits (bytes : List UInt8) : List UInt8 × List UInt8 × List UInt8 :=
  let whole := bytes.takeWhile isDigit
  match bytes.dropWhile isDigit with
  | 0x2E :: rest => (whole, rest.takeWhile isDigit, rest.dropWhile isDigit)
  | rest => (whole, [], rest)

/-- An exponent stops growing once it is this large. -/
def exponentLimit : Nat := 0x10000

/-- Appends a digit to an exponent below the limit; any further digit is passed over. -/
def pushExponent (n : Nat) (digit : UInt8) : Nat :=
  if n < exponentLimit then 10 * n + (digit.toNat - 0x30) else n

/-- The exponent that digits write, up to its limit; nothing written is zero. -/
def ofExponentDigits (digits : List UInt8) : Nat :=
  digits.foldl pushExponent 0

/-- What follows the digits: nothing, or an exponent of one or more digits with a sign of either
kind. -/
def exponent? (bytes : List UInt8) : Option Int :=
  match bytes with
  | [] => some 0
  | mark :: rest =>
    let (negative, digits) := splitSign rest
    if (mark == 0x65 || mark == 0x45) && !digits.isEmpty && digits.all isDigit then
      let n := ofExponentDigits digits
      some (if negative then -(n : Int) else n)
    else none

/-- Reads a numeral. At least one digit must stand before or after the point. -/
def ofBytes? (bytes : List UInt8) : Option Numeral :=
  let (negative, unsigned) := splitSign bytes
  let (whole, fraction, rest) := splitDigits unsigned
  if whole.isEmpty && fraction.isEmpty then none
  else (exponent? rest).map fun e =>
    { negative, coefficient := ofDecimalDigits (whole ++ fraction), exponent := e - fraction.length }

theorem le_foldl_pushExponent (n : Nat) (digits : List UInt8) :
    n ≤ digits.foldl pushExponent n := by
  induction digits generalizing n with
  | nil => exact Nat.le_refl n
  | cons d digits ih =>
    refine Nat.le_trans ?_ (ih (pushExponent n d))
    unfold pushExponent
    split <;> omega

theorem foldl_pushExponent_of_lt (n : Nat) (digits : List UInt8)
    (h : digits.foldl pushExponent n < exponentLimit) :
    digits.foldl pushExponent n = digits.foldl (fun n b => 10 * n + (b.toNat - 0x30)) n := by
  induction digits generalizing n with
  | nil => rfl
  | cons d digits ih =>
    have hn : n < exponentLimit :=
      Nat.lt_of_le_of_lt (le_foldl_pushExponent n (d :: digits)) h
    have hd : pushExponent n d = 10 * n + (d.toNat - 0x30) := by simp [pushExponent, hn]
    simp only [List.foldl_cons, hd] at h ⊢
    exact ih _ h

/-- An exponent that is read as less than the limit is the number that its digits write. -/
theorem ofExponentDigits_of_lt {digits : List UInt8}
    (h : ofExponentDigits digits < exponentLimit) :
    ofExponentDigits digits = ofDecimalDigits digits := by
  rw [ofDecimalDigits_eq_foldl]
  exact foldl_pushExponent_of_lt 0 digits h

end Numeral

end JsonPull.Number
