import JsonPull.Error
import JsonPull.Number.Integer
import JsonPull.Request
import JsonPull.Text.Blank
import JsonPull.Value

/-! # Conversion of numbers

A lexeme is the spelling of a number in the stream, and a text may spell one too. A lexeme that
begins with `0` may be a radix literal, which writes the bits of an integer. -/

namespace JsonPull

open JsonPull.Number

namespace Lexeme

/-- A byte that a number may consist of. -/
def isByte (b : UInt8) : Bool :=
  isDigit b || (0x61 ≤ b && b ≤ 0x66) || (0x41 ≤ b && b ≤ 0x46) ||
    b == 0x78 || b == 0x58 || b == 0x2E || b == 0x2D || b == 0x2B

/-- Integers of more bytes than this are not read, however large they may be. -/
def maxIntegerLength : Nat := 380

/-- The integer of 64 bits that a radix literal writes. -/
def radix64? (lexeme : List UInt8) : Option Int := radixInteger? 64 lexeme

def double? (lexeme : List UInt8) : Option Double :=
  if isRadix lexeme then (radix64? lexeme).map Double.ofInt else Double.ofBytes? lexeme

def decimal? (lexeme : List UInt8) : Option Decimal :=
  if isRadix lexeme then (radix64? lexeme).bind Decimal.ofInt? else Decimal.ofBytes? lexeme

/-- The integer of 32 bits that a lexeme writes. -/
def int32 (lexeme : List UInt8) : Except NumberFault Int :=
  if isRadix lexeme then
    match radixInteger? 32 lexeme with
    | some n => .ok n
    | none => .error (.notInteger (Text.ofBytes lexeme))
  else
    match decimalInteger? lexeme with
    | none => .error (.notInteger (Text.ofBytes lexeme))
    | some n =>
      if fitsSigned 32 n then .ok n else .error (.outsideInt32 (Text.ofBytes lexeme))

/-- A number that is no integer of 64 bits, in the form that the settings ask for. -/
def float (settings : Settings) (lexeme : List UInt8) : Except NumberFault Value :=
  match settings.floats with
  | .decimal =>
    match Decimal.ofBytes? lexeme with
    | some x => .ok (.decimal x)
    | none => .error (.notDecimal (Text.ofBytes lexeme))
  | .double =>
    match Double.ofBytes? lexeme with
    | some x => .ok (.float x)
    | none => .error (.notNumber (Text.ofBytes lexeme))

/-- The value of a lexeme as it is written. -/
def plain (settings : Settings) (lexeme : List UInt8) : Except NumberFault Value :=
  if isRadix lexeme then
    match radix64? lexeme with
    | some n => .ok (.integer n)
    | none => .error (.notNumber (Text.ofBytes lexeme))
  else
    match decimalInteger? lexeme with
    | none => float settings lexeme
    | some n =>
      if fitsSigned 64 n then .ok (.integer n)
      else if settings.bigIntegers then
        if maxIntegerLength < lexeme.length then .error (.tooLarge (Text.ofBytes lexeme))
        else .ok (.bigInteger n)
      else float settings lexeme

/-- The kind of token that a number becomes. -/
def kind : Value → Scalar
  | .integer _ | .bigInteger _ => .integer
  | _ => .float

/-- What a lexeme becomes on request: a value, or for a string its own spelling. -/
def convert (settings : Settings) (request : Request) (lexeme : List UInt8) :
    Except NumberFault (Option Value) :=
  match request with
  | .string =>
    let valid := if isRadix lexeme then (radix64? lexeme).isSome
      else (Double.ofBytes? lexeme).isSome
    if valid then .ok none else .error (.notNumber (Text.ofBytes lexeme))
  | .int32 => (int32 lexeme).map fun n => some (.integer n)
  | .decimal =>
    match decimal? lexeme with
    | some x => .ok (some (.decimal x))
    | none => .error (.notDecimal (Text.ofBytes lexeme))
  | .double =>
    match double? lexeme with
    | some x => .ok (some (.float x))
    | none => .error (.notDouble (Text.ofBytes lexeme))
  | _ => (plain settings lexeme).map some

end Lexeme

/-! ## Numbers and truth values in texts -/

namespace TextNumber

/-- The characters of a text without the commas that group digits. -/
def ungrouped (text : String) : List UInt8 :=
  Text.toBytes (String.ofList (text.toList.filter (· != ',')))

def int32? (text : String) : Option Int :=
  (signedInteger? (Text.toBytes (Text.trim text))).filter (fitsSigned 32 ·)

/-- A decimal number; one plus sign before it is dropped first. -/
def decimal? (text : String) : Option Decimal :=
  match ungrouped (Text.trim text) with
  | 0x2B :: rest => Decimal.ofBytes? rest
  | bytes => Decimal.ofBytes? bytes

/-- A number of double precision, or one of the three words for special ones. -/
def double? (text : String) : Option Double :=
  let trimmed := Text.trim text
  if trimmed == Literal.nan.text then some Literal.nan.number
  else if trimmed == Literal.infinity.text then some Literal.infinity.number
  else if trimmed == Literal.negativeInfinity.text then some Literal.negativeInfinity.number
  else Double.ofBytes? (ungrouped trimmed)

/-- A truth value in letters of either case. -/
def boolean? (text : String) : Option Bool :=
  let folded := (Text.trim text).toList.map Char.toLower
  if folded = "true".toList then some true
  else if folded = "false".toList then some false
  else none

/-- The value of a text in the form of a request, with the kind of its token. -/
def convert? (request : Request) (text : String) : Option (Scalar × Value) :=
  match request with
  | .int32 => (int32? text).map fun n => (.integer, .integer n)
  | .decimal => (decimal? text).map fun x => (.float, .decimal x)
  | .double => (double? text).map fun x => (.float, .float x)
  | .boolean => (boolean? text).map fun b => (.boolean, .boolean b)
  | _ => none

end TextNumber

end JsonPull
