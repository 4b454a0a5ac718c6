import JsonPull.Number.Double
import JsonPull.Text.Utf8

/-! # Literal words -/

namespace JsonPull

/-- The words with a meaning of their own. -/
inductive Literal where
  | true
  | false
  | null
  | undefined
  | nan
  | infinity
  | negativeInfinity
  | new
deriving DecidableEq, Repr

namespace Literal

/-- The spelling of the word. -/
def text : Literal → String
  | true => "true"
  | false => "false"
  | null => "null"
  | undefined => "undefined"
  | nan => "NaN"
  | infinity => "Infinity"
  | negativeInfinity => "-Infinity"
  | new => "new"

/-- The bytes of the word. -/
def bytes (literal : Literal) : List UInt8 :=
  Text.toBytes literal.text

/-- What the word stands for, as error messages say it. -/
def meaning : Literal → String
  | true | false => "boolean value"
  | null => "null value"
  | undefined => "undefined value"
  | nan => "NaN value"
  | infinity => "positive infinity value"
  | negativeInfinity => "negative infinity value"
  | new => "constructor"

/-- The message for a word that was begun and not finished. -/
def message (literal : Literal) : String :=
  "Error parsing " ++ literal.meaning ++ "."

/-- The number that a special word stands for. -/
def number : Literal → Number.Double
  | nan => .nan
  | negativeInfinity => .infinity Bool.true
  | _ => .infinity Bool.false

end Literal

end JsonPull
