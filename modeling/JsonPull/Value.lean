import JsonPull.Calendar
import JsonPull.Number.Decimal
import JsonPull.Number.Double

/-! # Values

The value that a token carries. Which form a number takes depends on its spelling and on the
options. -/

namespace JsonPull

/-- The payload of a token. An integer fits a machine word, a big integer does not. -/
inductive Value where
  | string (text : String)
  | integer (n : Int)
  | bigInteger (n : Int)
  | float (x : Number.Double)
  | decimal (x : Number.Decimal)
  | boolean (b : Bool)
  | date (t : Timestamp)
  | bytes (data : List UInt8)
deriving DecidableEq

/-- The answer of a date read: a date, or the text that is none. -/
inductive DateRead (α : Type) where
  | parsed (date : α)
  | raw (text : String)
deriving DecidableEq, Repr

namespace Value

def asString? : Value → Option String
  | string text => some text
  | _ => none

/-- An integer of 32 bits. -/
def asInt32? : Value → Option Int
  | integer n => if -2147483648 ≤ n ∧ n ≤ 2147483647 then some n else none
  | _ => none

/-- An integer between 0 and 255. -/
def asByte? : Value → Option UInt8
  | integer n => if 0 ≤ n ∧ n ≤ 255 then some (UInt8.ofNat n.toNat) else none
  | _ => none

def asDecimal? : Value → Option Number.Decimal
  | decimal x => some x
  | _ => none

def asDouble? : Value → Option Number.Double
  | float x => some x
  | _ => none

def asBoolean? : Value → Option Bool
  | boolean b => some b
  | _ => none

def asBytes? : Value → Option (List UInt8)
  | bytes data => some data
  | _ => none

def asDate? : Value → Option (DateRead Timestamp)
  | date t => some (.parsed t)
  | string text => some (.raw text)
  | _ => none

/-- A date that kept its offset, or the text that is no date. -/
def asOffsetDate? : Value → Option (DateRead Timestamp)
  | date (.offset instant east) => some (.parsed (.offset instant east))
  | string text => some (.raw text)
  | _ => none

/-- A number other than zero. -/
def isTruthy : Value → Bool
  | integer n | bigInteger n => n != 0
  | float x => !x.isZero
  | decimal x => !x.isZero
  | _ => false

end Value

end JsonPull
