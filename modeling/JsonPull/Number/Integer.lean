import JsonPull.Number.Digits
import JsonPull.Number.Power

/-! # Integers

Three spellings: the decimal integer of a number literal, the radix literal that begins with `0`,
and the decimal integer of a text. Values are unbounded; whether one fits into a machine word is
a question of its own. -/

namespace JsonPull.Number

/-- Whether `n` is a signed number of `width` bits. -/
def fitsSigned (width : Nat) (n : Int) : Bool :=
  -(twoPow (width - 1) : Int) ≤ n && n < twoPow (width - 1)

/-- The signed number of `width` bits with the bits of `n`, for `n` below `2 ^ width`. -/
def twosComplement (width n : Nat) : Int :=
  if n < twoPow (width - 1) then n else n - (twoPow width : Int)

/-- A decimal integer: digits after at most one minus sign. -/
def decimalInteger? (bytes : List UInt8) : Option Int :=
  match bytes with
  | 0x2D :: digits => (ofDigits? 10 digits).map fun n => -(n : Int)
  | _ => (ofDigits? 10 bytes).map Int.ofNat

/-- A decimal integer with a sign of either kind, as a text spells it. -/
def signedInteger? (bytes : List UInt8) : Option Int :=
  match bytes with
  | 0x2B :: digits => (ofDigits? 10 digits).map Int.ofNat
  | _ => decimalInteger? bytes

/-- A number literal that begins with `0` and goes on otherwise than with a point or an exponent
is written in another base. -/
def isRadix (lexeme : List UInt8) : Bool :=
  match lexeme with
  | 0x30 :: second :: _ => second != 0x2E && second != 0x65 && second != 0x45
  | _ => false

/-- The number of a radix literal: hexadecimal after `0x` or `0X`, else octal. -/
def radixValue? (lexeme : List UInt8) : Option Nat :=
  match lexeme with
  | 0x30 :: 0x78 :: digits => ofUnsigned? 16 digits
  | 0x30 :: 0x58 :: digits => ofUnsigned? 16 digits
  | _ => ofUnsigned? 8 lexeme

/-- The signed number of `width` bits that a radix literal writes bit by bit. -/
def radixInteger? (width : Nat) (lexeme : List UInt8) : Option Int :=
  (radixValue? lexeme).bind fun n => if n < twoPow width then some (twosComplement width n) else none

/-- A two's complement number differs from its bits by a multiple of `2 ^ width`. -/
theorem twosComplement_emod (width n : Nat) :
    twosComplement width n % (twoPow width : Int) = (n : Int) % (twoPow width : Int) := by
  unfold twosComplement
  split
  · rfl
  · exact Int.sub_emod_right _ _

theorem fitsSigned_twosComplement {width n : Nat} (hw : 0 < width) (h : n < twoPow width) :
    fitsSigned width (twosComplement width n) = true := by
  obtain ⟨k, rfl⟩ : ∃ k, width = k + 1 := ⟨width - 1, by omega⟩
  have hk := twoPow_succ k
  simp only [fitsSigned, twosComplement, Nat.add_sub_cancel, Bool.and_eq_true, decide_eq_true_eq]
  split <;> omega

end JsonPull.Number
