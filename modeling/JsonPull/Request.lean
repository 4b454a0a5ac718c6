import JsonPull.Options

/-! # Requests

What the caller wants the next value to be. -/

namespace JsonPull

/-- The form that a value is read in. A plain request takes it as it is written. -/
inductive Request where
  | plain
  | int32
  | decimal
  | double
  | string
  | boolean
  | bytes
  | dateTime
  | dateTimeOffset
deriving DecidableEq, Repr

namespace Request

/-- What becomes of quoted texts that look like dates. -/
def dates (settings : Settings) : Request → DateHandling
  | plain => settings.dates
  | dateTime => .dateTime
  | dateTimeOffset => .dateTimeOffset
  | _ => .none

/-- The form that a quoted text is converted to, as error messages call it. -/
def conversion? : Request → Option String
  | int32 => some "integer"
  | decimal => some "decimal"
  | double => some "double"
  | boolean => some "boolean"
  | _ => none

end Request

end JsonPull
