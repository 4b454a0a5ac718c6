import JsonPull.Number.Digits
import JsonPull.Text.Utf8

/-! # Escapes

A backslash and a letter stand for one character, and `\uXXXX` stands for a unit of UTF-16. Two
units may be a surrogate pair; half of a pair stands for nothing. -/

namespace JsonPull.Text

/-- The character that a backslash before `c` stands for. -/
def simpleEscape? (c : Char) : Option Char :=
  match c with
  | 'b' => some '\x08'
  | 't' => some '\t'
  | 'n' => some '\n'
  | 'f' => some '\x0c'
  | 'r' => some '\r'
  | '\\' => some '\\'
  | '"' => some '"'
  | '\x27' => some '\x27'
  | '/' => some '/'
  | _ => none

/-- The unit of four hexadecimal digits. -/
def unit? (digits : List UInt8) : Option Nat :=
  if digits.length = 4 then Number.ofDigits? 16 digits else none

def isHighSurrogate (unit : Nat) : Bool := 0xD800 ≤ unit && unit ≤ 0xDBFF

def isLowSurrogate (unit : Nat) : Bool := 0xDC00 ≤ unit && unit ≤ 0xDFFF

/-- The character of a surrogate pair. -/
def ofPair (high low : Nat) : Char :=
  Char.ofNat (0x10000 + (high - 0xD800) * 0x400 + (low - 0xDC00))

/-- The character of a unit that is no surrogate. -/
def ofUnit (unit : Nat) : Char :=
  if isHighSurrogate unit || isLowSurrogate unit then replacement else Char.ofNat unit

end JsonPull.Text
