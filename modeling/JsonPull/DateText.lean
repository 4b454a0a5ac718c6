import JsonPull.Calendar
import JsonPull.Number.Digits
import JsonPull.Number.Power

/-! # Dates written in texts

Two notations are recognised: `yyyy-MM-ddTHH:mm:ss` with an optional fraction and an optional zone,
and a count of milliseconds between `/Date(` and `)/` with an optional offset. Every other text is
no date. -/

namespace JsonPull.DateText

open JsonPull.Number JsonPull.Calendar

/-- The number written by one or more decimal digits. -/
def number? (bytes : List UInt8) : Option Nat :=
  if bytes.isEmpty || !bytes.all isDigit then none else some (ofDecimalDigits bytes)

/-- `count` bytes from `start` on. -/
def field (bytes : List UInt8) (start count : Nat) : List UInt8 :=
  (bytes.drop start).take count

/-- Where a time was written: nowhere, at zero offset, or so many seconds to the east. -/
inductive Zone where
  | none
  | utc
  | offset (east : Int)
deriving DecidableEq, Repr

/-- The offset of a sign, hours and minutes, which must be less than a day. -/
def offset? (sign : UInt8) (hours minutes : List UInt8) : Option Int := do
  let h ← number? hours
  let m ← number? minutes
  let east : Int := if sign == 0x2D then -(h * 3600 + m * 60 : Nat) else (h * 3600 + m * 60 : Nat)
  if east.natAbs < 86400 then some east else none

def isSign (b : UInt8) : Bool := b == 0x2B || b == 0x2D

/-- The zone at the end of a time. -/
def zone? : List UInt8 → Option Zone
  | [] => some .none
  | [0x5A] => some .utc
  | [s, h, h'] => if isSign s then (offset? s [h, h'] [0x30]).map .offset else none
  | [s, h, h', m, m'] => if isSign s then (offset? s [h, h'] [m, m']).map .offset else none
  | [s, h, h', c, m, m'] =>
    if isSign s && c == 0x3A then (offset? s [h, h'] [m, m']).map .offset else none
  | _ => none

/-- The nanoseconds of a fraction of one to nine digits after a point, and what follows it. -/
def fraction? : List UInt8 → Option (Nat × List UInt8)
  | 0x2E :: rest =>
    let digits := rest.takeWhile isDigit
    if digits.isEmpty || 9 < digits.length then none
    else some (ofDecimalDigits digits * tenPow (9 - digits.length), rest.dropWhile isDigit)
  | rest => some (0, rest)

/-- The lengths that a written date and time may have. -/
def isIsoLength (n : Nat) : Bool := 19 ≤ n && n ≤ 40

/-- The marks between the fields of a written date and time. -/
def hasIsoMarks (bytes : List UInt8) : Bool :=
  [(4, (0x2D : UInt8)), (7, 0x2D), (10, 0x54), (13, 0x3A), (16, 0x3A)].all fun (place, mark) =>
    bytes[place]? == some mark

/-- A written date and time with its zone. -/
def iso? (bytes : List UInt8) : Option (Local × Zone) := do
  if !(isIsoLength bytes.length && hasIsoMarks bytes) then none
  else
    let year ← number? (field bytes 0 4)
    let month ← number? (field bytes 5 2)
    let day ← number? (field bytes 8 2)
    let hour ← number? (field bytes 11 2)
    let minute ← number? (field bytes 14 2)
    let second ← number? (field bytes 17 2)
    let (nanos, rest) ← fraction? (bytes.drop 19)
    let zone ← zone? rest
    let time : Local := { year, month, day, hour, minute, second, nanos }
    if time.isValid then some (time, zone) else none

/-- The instant of a local time at a place so many seconds to the east. -/
def shifted (time : Local) (east : Int) : Instant :=
  { time.instant with seconds := time.instant.seconds - east }

/-- A written date and time as a timestamp, which keeps the offset on request. -/
def ofLocal (keepOffset : Bool) (time : Local) (zone : Zone) : Timestamp :=
  let east := match zone with
    | .offset east => east
    | _ => 0
  if keepOffset then .offset (shifted time east) east
  else if zone = .none then .unspecified time.instant
  else .utc (shifted time east)

/-- The counts of milliseconds that have a date. -/
def isMillis (millis : Int) : Bool :=
  -8334601228800000 ≤ millis && millis ≤ 8210266876799999

/-- The offset after a count of milliseconds, if there is one. -/
def millisOffset? : List UInt8 → Option (Option Int)
  | [] => some none
  | [s, h, h', m, m'] => if isSign s then (offset? s [h, h'] [m, m']).map some else none
  | _ => none

/-- A count of milliseconds with an optional offset. -/
def millis? (bytes : List UInt8) : Option (Int × Option Int) := do
  let (negative, unsigned) := match bytes with
    | 0x2D :: rest => (true, rest)
    | _ => (false, bytes)
  let count ← number? (unsigned.takeWhile isDigit)
  let millis : Int := if negative then -(count : Int) else count
  let offset ← millisOffset? (unsigned.dropWhile isDigit)
  if isMillis millis then some (millis, offset) else none

/-- A count of milliseconds as a timestamp, which keeps the offset on request. -/
def ofMillisOffset (keepOffset : Bool) (millis : Int) (offset : Option Int) : Timestamp :=
  if keepOffset then .offset (ofMillis millis) (offset.getD 0) else .utc (ofMillis millis)

/-- `/Date(` -/
def opening : List UInt8 := [0x2F, 0x44, 0x61, 0x74, 0x65, 0x28]

/-- `)/` -/
def closing : List UInt8 := [0x29, 0x2F]

/-- What stands between `/Date(` and `)/`. -/
def inner? (bytes : List UInt8) : Option (List UInt8) :=
  if bytes.take opening.length = opening then
    let rest := bytes.drop opening.length
    let count := rest.length - closing.length
    if closing.length ≤ rest.length ∧ rest.drop count = closing then some (rest.take count) else none
  else none

/-- The timestamp that a text writes. With `keepOffset` the offset it was written in is kept, and
zero where none was written; without it an instant is moved to zero offset, and a local time
without a zone stays one. -/
def ofBytes? (keepOffset : Bool) (bytes : List UInt8) : Option Timestamp :=
  match inner? bytes with
  | some inner => (millis? inner).map fun (millis, offset) => ofMillisOffset keepOffset millis offset
  | none => (iso? bytes).map fun (time, zone) => ofLocal keepOffset time zone

/-- Both modes recognise the same texts. -/
theorem isSome_ofBytes? (bytes : List UInt8) (mode mode' : Bool) :
    (ofBytes? mode bytes).isSome = (ofBytes? mode' bytes).isSome := by
  unfold ofBytes?
  split <;> simp

end JsonPull.DateText
