import JsonPull.Reader.Layout

/-! # Literal words

A word must be spelled out in full and be followed by something that cannot continue it. -/

namespace JsonPull.Reading

/-- Consumes all bytes up to the end of the stream, of which there are at most so many. -/
def consumeRest : Nat → Reading Unit
  | 0 => return ()
  | n + 1 => do
    match ← byte? 0 .all with
    | some _ => do
      advance 1
      consumeRest n
    | none => return ()

/-- Compares the bytes of a word with those from `matched` bytes ahead on, and consumes what was
the same. -/
def matchBytes (matched : Nat) : List UInt8 → Reading Bool
  | [] => do
    advance matched
    return true
  | expected :: rest => do
    if (← byte? matched .all) == some expected then matchBytes (matched + 1) rest
    else
      advance matched
      return false

/-- Consumes a word. Where it differs, the cursor stops; where the stream is too short for it, the
rest is consumed. -/
def matchWord (literal : Literal) : Reading Bool := do
  let length := literal.bytes.length
  match ← byte? (length - 1) .all with
  | none => do
    consumeRest length
    fail (.unexpectedEnd .value)
  | some _ => matchBytes 0 literal.bytes

/-- Whether a word or a number may end at the cursor. -/
def atSeparator : Reading Bool := do
  match ← byte? 0 .unread with
  | none => return true
  | some 0x7D => return true
  | some 0x5D => return true
  | some 0x2C => return true
  | some 0x2F => do
    let next ← byte? 1 .unread
    return next == some 0x2A || next == some 0x2F
  | some 0x29 => return (← get).phase.inConstructor
  | some _ => return (← blankLength? .unread).isSome

/-- Consumes a word that ends where it should. -/
def separateWord (literal : Literal) : Reading Bool := do
  if ← matchWord literal then atSeparator else return false

/-- Consumes a word that must stand here. -/
def requireWord (literal : Literal) : Reading Unit := do
  if !(← separateWord literal) then fail (.invalidLiteral literal)

/-- Reads `true` or `false`. -/
def booleanValue (b : Bool) : Reading Unit := do
  requireWord (if b then .true else .false)
  update fun settings => State.publishScalar settings .boolean (.owned (.boolean b)) true

/-- Reads `null`. -/
def nullValue : Reading Unit := do
  requireWord .null
  update fun settings => State.publishScalar settings .null .empty true

/-- Reads `undefined`. -/
def undefinedValue : Reading Unit := do
  requireWord .undefined
  update fun settings => State.publishScalar settings .undefined .empty true

end JsonPull.Reading
